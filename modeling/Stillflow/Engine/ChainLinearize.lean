import Stillflow.Engine.Linearize
import Stillflow.Plan.ChainPlan

/-! `linearize` accepts the chains from one scan to one materialize node, and returns them. -/

namespace Stillflow.Engine

open Stillflow.Core Stillflow.Plan Lib Lib.Fallible Lib.Maps List Std.ExtTreeMap

abbrev PlanEntry := PlanNodeId × PlanNode

/-- A scan reads nothing and every other node reads one node. -/
def Unary (entry : PlanEntry) : Prop :=
  if isScan entry.2.kind then entry.2.inputs = [] else ∃ parent, entry.2.inputs = [parent]

/-- The nodes that read `parent`, in listing order. -/
def readers (parent : PlanNodeId) (entries : List PlanEntry) : List PlanNodeId :=
  (entries.filter fun entry => entry.2.inputs = [parent]).map Prod.fst

theorem readers_cons (parent : PlanNodeId) (entry : PlanEntry) (entries : List PlanEntry) :
    readers parent (entry :: entries) =
      (if entry.2.inputs = [parent] then [entry.1] else []) ++ readers parent entries := by
  unfold readers
  rw [filter_cons]
  by_cases h : entry.2.inputs = [parent] <;> simp [h]

theorem readers_append (parent : PlanNodeId) (entries entries' : List PlanEntry) :
    readers parent (entries ++ entries') = readers parent entries ++ readers parent entries' := by
  unfold readers
  rw [filter_append, map_append]

/-- The ids of the entries whose kind is selected. -/
def selected (select : PlanNodeKind → Bool) (entries : List PlanEntry) : List PlanNodeId :=
  (entries.filter fun entry => select entry.2.kind).map Prod.fst

theorem selected_cons (select : PlanNodeKind → Bool) (entry : PlanEntry)
    (entries : List PlanEntry) : selected select (entry :: entries) =
      (if select entry.2.kind then [entry.1] else []) ++ selected select entries := by
  unfold selected
  rw [filter_cons]
  by_cases h : select entry.2.kind = true <;> simp [h]

/-- What the classification loop adds to a scan for some entries. -/
structure Classified (scan : PlanScan) (entries : List PlanEntry) (scan' : PlanScan) : Prop where
  scans : scan'.scans = scan.scans ++ selected isScan entries
  materializes : scan'.materializes = scan.materializes ++ selected isMaterialize entries
  children : ∀ parent, scan'.children[parent]? =
    if readers parent entries = [] then scan.children[parent]?
    else some (scan.children[parent]?.getD [] ++ readers parent entries)

theorem classify_unary (scan : PlanScan) {entry : PlanEntry} (h : Unary entry) :
    ∃ scan', classify scan entry = .ok scan' ∧ Classified scan [entry] scan' := by
  unfold classify
  unfold Unary at h
  cases hscan : isScan entry.2.kind with
  | true =>
    rw [hscan, if_pos rfl] at h
    rw [if_pos rfl, if_pos rfl, h]
    refine ⟨_, rfl, ?_, ?_, fun parent => ?_⟩
    · simp [selected, hscan]
    · by_cases hm : isMaterialize entry.2.kind = true <;> simp [selected, hm]
    · simp [readers, h]
  | false =>
    rw [hscan, if_neg Bool.false_ne_true] at h
    obtain ⟨parent, hparent⟩ := h
    rw [if_neg Bool.false_ne_true, if_neg Bool.false_ne_true, hparent]
    refine ⟨_, rfl, ?_, ?_, fun other => ?_⟩
    · simp [selected, hscan]
    · by_cases hm : isMaterialize entry.2.kind = true <;> simp [selected, hm]
    · rw [getElem?_alter, readers_cons, hparent]
      by_cases hsame : parent = other
      · subst hsame
        simp [readers]
      · have hcompare : compare parent other ≠ .eq := fun heq =>
          hsame (Std.LawfulEqOrd.eq_of_compare heq)
        simp [readers, hsame, hcompare]

theorem Classified.trans {scan mid scan' : PlanScan} {entry : PlanEntry}
    {entries : List PlanEntry} (h : Classified scan [entry] mid)
    (h' : Classified mid entries scan') : Classified scan (entry :: entries) scan' := by
  have hsplit : ∀ select, selected select (entry :: entries) =
      selected select [entry] ++ selected select entries := by
    intro select
    rw [selected_cons, selected_cons]
    simp [selected]
  refine ⟨?_, ?_, fun parent => ?_⟩
  · rw [h'.scans, h.scans, hsplit, append_assoc]
  · rw [h'.materializes, h.materializes, hsplit, append_assoc]
  · have hreaders : readers parent (entry :: entries) =
        readers parent [entry] ++ readers parent entries := readers_append parent [entry] entries
    rw [h'.children, h.children, hreaders]
    by_cases hfirst : readers parent [entry] = []
    · simp [hfirst]
    · by_cases hrest : readers parent entries = [] <;> simp [hfirst, hrest]

theorem classifyAll_unary (scan : PlanScan) {entries : List PlanEntry}
    (h : ∀ entry ∈ entries, Unary entry) :
    ∃ scan', entries.foldlM classify scan = .ok scan' ∧ Classified scan entries scan' := by
  induction entries generalizing scan with
  | nil => exact ⟨scan, rfl, by simp [selected], by simp [selected], by simp [readers]⟩
  | cons entry entries ih =>
    rw [forall_mem_cons] at h
    obtain ⟨mid, hmid, hfirst⟩ := classify_unary scan h.1
    obtain ⟨scan', hscan', hrest⟩ := ih mid h.2
    exact ⟨scan', by rw [foldlM_cons, hmid, ok_bind, hscan'], hfirst.trans hrest⟩

theorem selected_chain (select : PlanNodeKind → Bool) (previous : Option PlanNodeId)
    (es : List Emission) : selected select (chainEntries previous es) =
      (es.filter fun e => select e.kind).map Emission.id := by
  induction es generalizing previous with
  | nil => rfl
  | cons e es ih =>
    rw [chainEntries, selected_cons, ih, filter_cons]
    cases select e.kind <;> rfl

variable {previous : Option PlanNodeId} {es : List Emission} {scan : PlanScan}

theorem readers_chain_nil {parent : PlanNodeId} (hprev : previous ≠ some parent)
    (hes : parent ∉ es.dropLast.map Emission.id) :
    readers parent (chainEntries previous es) = [] := by
  induction es generalizing previous with
  | nil => rfl
  | cons e es ih =>
    have hfirst : previous.toList ≠ [parent] := by
      cases previous with
      | none => simp
      | some p => simpa using hprev
    rw [chainEntries, readers_cons, if_neg hfirst, nil_append]
    cases es with
    | nil => rfl
    | cons e' es =>
      rw [dropLast_cons_cons, map_cons, mem_cons, not_or] at hes
      exact ih (fun heq => hes.1 (Option.some.inj heq).symm) hes.2

theorem readers_chain {before after : List Emission} {e next : Emission}
    (hn : ((before ++ e :: next :: after).map Emission.id).Nodup) :
    readers e.id (chainEntries none (before ++ e :: next :: after)) = [next.id] := by
  rw [map_append, map_cons, map_cons, nodup_append, nodup_cons,
    mem_cons, not_or] at hn
  obtain ⟨-, ⟨⟨hnext, hafter⟩, -⟩, hbefore⟩ := hn
  have hsplit : before ++ e :: next :: after = (before ++ [e]) ++ next :: after := by simp
  have hlast : lastId none (before ++ [e]) = some e.id := by simp [lastId]
  have hread : (next.id, (⟨(some e.id).toList, next.kind⟩ : PlanNode)).2.inputs = [e.id] := rfl
  rw [hsplit, chainEntries_append, readers_append, hlast, chainEntries, readers_cons, if_pos hread,
    readers_chain_nil (by simp), readers_chain_nil]
  · rfl
  · simpa using Ne.symm hnext
  · intro hmem
    exact hafter ((dropLast_sublist after).map Emission.id |>.subset hmem)
  · rw [dropLast_concat]
    intro hmem
    exact hbefore e.id hmem e.id (by simp) rfl

theorem leads_chain {plan : LogicalPlan} {children : Children} {e : Emission}
    (hn : ((e :: es).map Emission.id).Nodup) (hroot : lastId none (e :: es) = some plan.root)
    (hnodes : ∀ entry ∈ chainEntries previous (e :: es), plan.nodes[entry.1]? = some entry.2)
    (hnext : (e :: es).IsChain fun e next => children[e.id]? = some [next.id]) :
    (chainTrail plan children).Leads e.id (chainEntries previous (e :: es)) := by
  induction es generalizing previous e with
  | nil =>
    have hvisit := hnodes _ (mem_cons_self ..)
    refine (Trail.leads_cons _).mpr ⟨rfl, ?_, .inl ⟨rfl, Option.some.inj hroot⟩⟩
    simp only [chainTrail, hvisit]
  | cons next es ih =>
    have hvisit := hnodes _ (mem_cons_self ..)
    rw [lastId_cons, lastId_of_cons (by simp)] at hroot
    rw [isChain_cons_cons] at hnext
    rw [map_cons, nodup_cons] at hn
    refine (Trail.leads_cons _).mpr ⟨rfl, ?_, .inr ⟨?_, next.id, ?_, ?_⟩⟩
    · simp only [chainTrail, hvisit]
    · -- the root is the last node of the chain, which comes later
      intro heq
      refine hn.1 ?_
      have hmem := mem_of_getLast? (lastId_none _ ▸ hroot)
      rw [heq]
      exact hmem
    · simp only [chainTrail, hnext.1]
    · refine ih hn.2 hroot (fun entry hentry => hnodes entry ?_) hnext.2
      rw [chainEntries]
      exact mem_cons_of_mem _ hentry

theorem unary_chain (hprev : previous.isSome = true) (hes : ∀ e ∈ es, isScan e.kind = false) :
    ∀ entry ∈ chainEntries previous es, Unary entry := by
  induction es generalizing previous with
  | nil => simp [chainEntries]
  | cons e es ih =>
    rw [forall_mem_cons] at hes
    obtain ⟨parent, rfl⟩ := Option.isSome_iff_exists.mp hprev
    rw [chainEntries, forall_mem_cons]
    refine ⟨?_, ih rfl hes.2⟩
    unfold Unary
    rw [hes.1, if_neg Bool.false_ne_true]
    exact ⟨parent, rfl⟩

/-- The plan of a duplicate-free chain from its only scan to its only materialize node is linearized
to that chain. -/
theorem linearize_chain {plan : LogicalPlan} {first last : Emission} {middle : List Emission}
    (hn : ((first :: (middle ++ [last])).map Emission.id).Nodup)
    (hnodes : plan.nodes = insertAll ∅ (chainEntries none (first :: (middle ++ [last]))))
    (hroot : plan.root = last.id) (hfirst : isScan first.kind = true)
    (hmiddle : ∀ e ∈ middle, isScan e.kind = false ∧ isMaterialize e.kind = false)
    (hlast : isMaterialize last.kind = true) :
    linearize plan = .ok (chainEntries none (first :: (middle ++ [last]))) := by
  have hfirst' : isMaterialize first.kind = false := by
    cases hkind : first.kind <;> simp_all [isScan, isMaterialize]
  have hlast' : isScan last.kind = false := by
    cases hkind : last.kind <;> simp_all [isScan, isMaterialize]
  have hkeys : ((chainEntries none (first :: (middle ++ [last]))).map Prod.fst).Nodup := by
    rw [chainEntries_fst]
    exact hn
  have hperm := toList_insertAll_perm hkeys
  rw [← hnodes] at hperm
  have hunary : ∀ entry ∈ plan.nodes.toList, Unary entry := by
    intro entry hentry
    rcases mem_cons.mp (hperm.mem_iff.mp hentry) with rfl | hentry
    · simp [Unary, hfirst]
    · refine unary_chain rfl (forall_mem_append.mpr ⟨fun e he => (hmiddle e he).1, ?_⟩) entry hentry
      exact forall_mem_singleton.mpr hlast'
  obtain ⟨scan, hscan, hclassified⟩ := classifyAll_unary {} hunary
  have hselected : ∀ select, (selected select plan.nodes.toList).Perm
      (((first :: (middle ++ [last])).filter fun e => select e.kind).map Emission.id) := by
    intro select
    rw [← selected_chain select none]
    exact (hperm.filter _).map _
  have hscans : scan.scans = [first.id] := by
    rw [hclassified.scans, nil_append, ← perm_singleton]
    refine (hselected isScan).trans (.of_eq ?_)
    have hnone : middle.filter (fun e => isScan e.kind) = [] :=
      filter_eq_nil_iff.mpr fun e he => by simp [(hmiddle e he).1]
    simp [filter_append, hfirst, hlast', hnone]
  have hmaterializes : scan.materializes = [last.id] := by
    rw [hclassified.materializes, nil_append, ← perm_singleton]
    refine (hselected isMaterialize).trans (.of_eq ?_)
    have hnone : middle.filter (fun e => isMaterialize e.kind) = [] :=
      filter_eq_nil_iff.mpr fun e he => by simp [(hmiddle e he).2]
    simp [filter_append, hfirst', hlast, hnone]
  have hnext : (first :: (middle ++ [last])).IsChain
      fun e next => scan.children[e.id]? = some [next.id] := by
    rw [isChain_iff_forall_rel_of_append_cons_cons]
    intro e next before after hsplit
    have hreaders : readers e.id plan.nodes.toList = [next.id] := by
      rw [← perm_singleton, ← readers_chain (hsplit ▸ hn), ← hsplit]
      exact (hperm.filter _).map _
    rw [hclassified.children, hreaders]
    simp
  have hend : lastId none (first :: (middle ++ [last])) = some plan.root := by
    rw [lastId_cons, lastId, getLast?_concat, hroot]
    rfl
  have hleads : (chainTrail plan scan.children).Leads first.id
      (chainEntries none (first :: (middle ++ [last]))) := by
    refine leads_chain hn hend (fun entry hentry => ?_) hnext
    rw [hnodes]
    exact getElem?_insertAll_of_mem hkeys hentry
  have hfollow := (Trail.follow_eq_ok _).mpr ⟨hleads, hkeys⟩
  have hsize : (chainEntries none (first :: (middle ++ [last]))).length = plan.nodes.size := by
    rw [← hperm.length_eq, length_toList]
  unfold linearize
  rw [hscan, ok_bind, hscans, hmaterializes]
  exact bind_eq_ok.mpr ⟨(), require_eq_ok.mpr hroot,
    bind_eq_ok.mpr ⟨_, hfollow, bind_eq_ok.mpr ⟨(), require_eq_ok.mpr hsize, rfl⟩⟩⟩

variable {plan : LogicalPlan} {path : List PlanEntry}

theorem unary_of_classify {scan' : PlanScan} {entry : PlanEntry}
    (h : classify scan entry = .ok scan') : Unary entry := by
  unfold classify at h
  unfold Unary
  cases hscan : isScan entry.2.kind with
  | true =>
    rw [if_pos rfl]
    simp only [hscan, if_true] at h
    obtain ⟨_, hinputs, -⟩ := of_bind h
    exact require_eq_ok.mp hinputs
  | false =>
    rw [if_neg Bool.false_ne_true]
    simp only [hscan, Bool.false_eq_true, if_false] at h
    split at h
    · rename_i parent hinputs
      exact ⟨parent, hinputs⟩
    · cases h

theorem classifyAll_eq_ok {scan' : PlanScan} {entries : List PlanEntry}
    (h : entries.foldlM classify scan = .ok scan') :
    (∀ entry ∈ entries, Unary entry) ∧ Classified scan entries scan' := by
  have hunary : ∀ entry ∈ entries, Unary entry := by
    induction entries generalizing scan with
    | nil => simp
    | cons entry entries ih =>
      rw [foldlM_cons] at h
      obtain ⟨_, hfirst, h⟩ := of_bind h
      exact forall_mem_cons.mpr ⟨unary_of_classify hfirst, ih h⟩
  obtain ⟨_, hscan, hclassified⟩ := classifyAll_unary scan hunary
  obtain rfl := Except.ok.inj (hscan.symm.trans h)
  exact ⟨hunary, hclassified⟩

/-- The nodes of a plan in one row: its only scan, nodes that each read the one before, and the root,
its only materialize node. -/
def PlanChain (plan : LogicalPlan) (path : List PlanEntry) : Prop :=
  path.Perm plan.nodes.toList ∧ (path.IsChain fun entry next => next.2.inputs = [entry.1]) ∧
    ∃ first middle last, path = first :: (middle ++ [last]) ∧
      isScan first.2.kind = true ∧ first.2.inputs = [] ∧
      (∀ entry ∈ middle, isScan entry.2.kind = false ∧ isMaterialize entry.2.kind = false) ∧
      isMaterialize last.2.kind = true ∧ last.1 = plan.root

theorem keys_nodup (h : path.Perm plan.nodes.toList) : (path.map Prod.fst).Nodup := by
  rw [(h.map Prod.fst).nodup_iff, map_fst_toList_eq_keys]
  exact nodup_keys

theorem chainEntries_of_links (previous : Option PlanNodeId) (schema : LogicalSchema)
    (hfirst : ∀ entry ∈ path.head?, entry.2.inputs = previous.toList)
    (hlinks : path.IsChain fun entry next => next.2.inputs = [entry.1]) :
    chainEntries previous (path.map fun entry => ⟨entry.1, entry.2.kind, schema⟩) = path := by
  induction path generalizing previous with
  | nil => rfl
  | cons entry path ih =>
    rw [map_cons, chainEntries, ih _ ?_ hlinks.tail, ← hfirst entry rfl]
    intro next hnext
    cases path with
    | nil => cases hnext
    | cons other path =>
      cases hnext
      exact (isChain_cons_cons.mp hlinks).1

theorem linearize_of_planChain (h : PlanChain plan path) : linearize plan = .ok path := by
  obtain ⟨hperm, hlinks, first, middle, last, rfl, hscan, hinputs, hmiddle, hmaterialize, hroot⟩ := h
  have hkeys := keys_nodup hperm
  have hentries := chainEntries_of_links none ⟨0, [], ∅⟩
    (by rintro _ ⟨⟩; exact hinputs) hlinks
  have hnodes : plan.nodes = insertAll ∅ (first :: (middle ++ [last])) := by
    refine ext_getElem? fun id => Option.ext fun node => ?_
    rw [getElem?_insertAll_iff hkeys, hperm.mem_iff, mem_toList_iff_getElem?_eq_some]
  rw [← hentries] at hnodes hkeys ⊢
  rw [chainEntries_fst] at hkeys
  rw [map_cons, map_append] at hnodes hkeys ⊢
  exact linearize_chain hkeys hnodes hroot.symm hscan (forall_mem_map.mpr hmiddle) hmaterialize

theorem getElem?_of_leads {children : Children} {start : PlanNodeId}
    (h : (chainTrail plan children).Leads start path) :
    ∀ entry ∈ path, plan.nodes[entry.1]? = some entry.2 := by
  induction path generalizing start with
  | nil => exact h.elim
  | cons entry path ih =>
    obtain ⟨rfl, hvisit, hrest⟩ := (Trail.leads_cons _).mp h
    have hnode : plan.nodes[entry.1]? = some entry.2 := by
      simp only [chainTrail] at hvisit
      split at hvisit
      · cases hvisit
        assumption
      · cases hvisit
    rcases hrest with ⟨rfl, -⟩ | ⟨-, _, -, hrest⟩
    · exact forall_mem_singleton.mpr hnode
    · exact forall_mem_cons.mpr ⟨hnode, ih hrest⟩

/-- Each node of a trail reads the one before it, since the trail follows the only reader. -/
theorem links_of_leads (hclassified : Classified {} plan.nodes.toList scan)
    {start : PlanNodeId} (h : (chainTrail plan scan.children).Leads start path) :
    path.IsChain fun entry next => next.2.inputs = [entry.1] := by
  have hnodes := getElem?_of_leads h
  induction path generalizing start with
  | nil => exact .nil
  | cons entry path ih =>
    obtain ⟨rfl, -, hrest⟩ := (Trail.leads_cons _).mp h
    rw [forall_mem_cons] at hnodes
    rcases hrest with ⟨rfl, -⟩ | ⟨-, id, hnext, hrest⟩
    · exact .singleton _
    · cases path with
      | nil => exact hrest.elim
      | cons next path =>
        refine isChain_cons_cons.mpr ⟨?_, ih hrest hnodes.2⟩
        obtain ⟨rfl, -, -⟩ := (Trail.leads_cons _).mp hrest
        have hread : next.1 ∈ readers entry.1 plan.nodes.toList := by
          simp only [chainTrail, hclassified.children] at hnext
          by_cases hnone : readers entry.1 plan.nodes.toList = []
          · simp [hnone] at hnext
          · rw [if_neg hnone] at hnext
            split at hnext
            · cases hnext
            · cases hnext
              simp_all
            · cases hnext
        obtain ⟨reader, hreader, hid⟩ := mem_map.mp hread
        obtain ⟨hmem, hinputs⟩ := mem_filter.mp hreader
        have hsame := mem_toList_iff_getElem?_eq_some.mp hmem
        rw [hid, hnodes.2 next mem_cons_self, Option.some.injEq] at hsame
        rw [hsame]
        exact of_decide_eq_true hinputs

/-- The one node of a kind, among the nodes of a path. -/
theorem selected_iff (hperm : path.Perm plan.nodes.toList) {select : PlanNodeKind → Bool}
    {id : PlanNodeId} (h : selected select plan.nodes.toList = [id]) :
    ∀ entry ∈ path, (select entry.2.kind = true ↔ entry.1 = id) := by
  intro entry hentry
  have hown : selected select path = [id] := by
    rw [← perm_singleton, ← h]
    exact (hperm.filter _).map _
  constructor
  · intro hselect
    have hmem : entry.1 ∈ selected select path :=
      mem_map_of_mem (mem_filter.mpr ⟨hentry, hselect⟩)
    rwa [hown, mem_singleton] at hmem
  · rintro rfl
    have hmem : entry.1 ∈ selected select path := by rw [hown, mem_singleton]
    obtain ⟨other, hother, hid⟩ := mem_map.mp hmem
    obtain ⟨hother, hselect⟩ := mem_filter.mp hother
    rwa [inj_on_of_nodup_map (keys_nodup hperm) hother hentry hid] at hselect

/-- A plan is linearized exactly when it is one chain, and then to that chain. -/
theorem linearize_iff_planChain (plan : LogicalPlan) (path : List PlanEntry) :
    linearize plan = .ok path ↔ PlanChain plan path := by
  refine ⟨fun h => ?_, linearize_of_planChain⟩
  unfold linearize at h
  obtain ⟨scan, hscan, h⟩ := of_bind h
  obtain ⟨hunary, hclassified⟩ := classifyAll_eq_ok hscan
  split at h
  · rename_i start finish hstart hfinish
    obtain ⟨_, hroot, h⟩ := of_bind h
    obtain ⟨trail, htrail, h⟩ := of_bind h
    obtain ⟨_, hlength, h⟩ := of_bind h
    cases h
    have hroot := require_eq_ok.mp hroot
    obtain ⟨hleads, hnodup⟩ := (Trail.follow_eq_ok _).mp htrail
    have hperm : path.Perm plan.nodes.toList := by
      have hsubset : path ⊆ plan.nodes.toList := fun entry hentry =>
        mem_toList_iff_getElem?_eq_some.mpr (getElem?_of_leads hleads entry hentry)
      refine ((Nodup.of_map _ hnodup).subperm hsubset).perm_of_length_le ?_
      rw [length_toList, require_eq_ok.mp hlength]
    have hscans := selected_iff hperm (hclassified.scans.symm.trans hstart)
    have hmaterializes := selected_iff hperm (hclassified.materializes.symm.trans hfinish)
    obtain ⟨hhead, hlast⟩ := Trail.leads_ends _ hleads
    refine ⟨hperm, links_of_leads hclassified hleads, ?_⟩
    obtain ⟨first, rest, rfl⟩ := exists_cons_of_ne_nil (l := path) (by rintro rfl; cases hhead)
    obtain rfl := Option.some.inj hhead
    have hfirst := (hscans first mem_cons_self).mpr rfl
    rcases eq_nil_or_concat rest with rfl | ⟨middle, last, rfl⟩
    · -- a lone node would be the scan and the materialize node at once
      have hboth := (hmaterializes first mem_cons_self).mpr ((Option.some.inj hlast).trans hroot)
      cases hkind : first.2.kind <;> simp [hkind, isScan, isMaterialize] at hfirst hboth
    · rw [concat_eq_append] at *
      have hend : last.1 = plan.root := by
        rw [map_cons, map_append, ← cons_append, map_singleton, getLast?_concat] at hlast
        exact Option.some.inj hlast
      have hinputs := hunary first (hperm.mem_iff.mp mem_cons_self)
      rw [Unary, hfirst, if_pos rfl] at hinputs
      have hfinal := (hmaterializes last (by simp)).mpr (hend.trans hroot)
      refine ⟨first, middle, last, rfl, hfirst, hinputs, fun entry hentry => ?_, hfinal, hend⟩
      rw [map_cons, map_append, nodup_cons, mem_append, not_or, nodup_append] at hnodup
      have hmem : entry ∈ first :: (middle ++ [last]) := by simp [hentry]
      have hid := mem_map_of_mem (f := Prod.fst) hentry
      constructor
      · refine Bool.eq_false_iff.mpr fun hscan => ?_
        exact hnodup.1.1 ((hscans entry hmem).mp hscan ▸ hid)
      · refine Bool.eq_false_iff.mpr fun hmaterialize => ?_
        have hsame := (hmaterializes entry hmem).mp hmaterialize
        exact hnodup.2.2.2 _ hid last.1 (by simp) (hsame.trans (hend.trans hroot).symm)
  · cases h

end Stillflow.Engine
