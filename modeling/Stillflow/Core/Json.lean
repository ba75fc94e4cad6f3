import Stillflow.Core.Text

/-!
JSON values and their compact text. A number is kept as its printed text and an object as its
entries in iteration order.
-/

namespace Stillflow.Core

open List

inductive Value where
  | null
  | bool (value : Bool)
  | number (text : String)
  | string (text : String)
  | array (items : List Value)
  | object (entries : List (String × Value))

namespace Value

def isNull : Value → Bool
  | .null => true
  | _ => false

def isObject : Value → Bool
  | .object _ => true
  | _ => false

def asObject : Value → Option (List (String × Value))
  | .object entries => some entries
  | _ => none

def asArray : Value → Option (List Value)
  | .array items => some items
  | _ => none

def asStr : Value → Option String
  | .string text => some text
  | _ => none

def asBool : Value → Option Bool
  | .bool value => some value
  | _ => none

end Value

/-- `Map::get` on the entries of an object. -/
def getKey (entries : List (String × Value)) (key : String) : Option Value :=
  (entries.find? (·.1 == key)).map (·.2)

def Value.get (value : Value) (key : String) : Option Value :=
  value.asObject.bind (getKey · key)

mutual

def Value.weight : Value → Nat
  | .null | .bool _ | .number _ | .string _ => 1
  | .array items => itemsWeight items + 1
  | .object entries => entriesWeight entries + 1

def itemsWeight : List Value → Nat
  | [] => 0
  | item :: items => item.weight + itemsWeight items

def entriesWeight : List (String × Value) → Nat
  | [] => 0
  | (_, item) :: entries => item.weight + entriesWeight entries

end

theorem Value.weight_pos (value : Value) : 0 < value.weight := by
  cases value <;> simp [Value.weight]

theorem itemsWeight_eq_sum (items : List Value) :
    itemsWeight items = (items.map Value.weight).sum := by
  induction items with
  | nil => rfl
  | cons item items ih => simp [itemsWeight, ih]

theorem entriesWeight_eq_sum (entries : List (String × Value)) :
    entriesWeight entries = (entries.map fun entry => entry.2.weight).sum := by
  induction entries with
  | nil => rfl
  | cons entry entries ih => simp [entriesWeight, ih]

mutual

/-- `ensure_no_secret_fields`: no key and no string anywhere looks like a credential. -/
def Value.noSecretFields : Value → Bool
  | .null | .bool _ | .number _ => true
  | .string text => !isSecretValue text
  | .array items => itemsNoSecret items
  | .object entries => entriesNoSecret entries

def itemsNoSecret : List Value → Bool
  | [] => true
  | item :: items => item.noSecretFields && itemsNoSecret items

def entriesNoSecret : List (String × Value) → Bool
  | [] => true
  | (key, item) :: entries =>
    !isSecretFieldName key && item.noSecretFields && entriesNoSecret entries

end

def hexDigit (n : Nat) : Char := Char.ofNat (if n < 10 then 48 + n else 87 + n)

/-- The `index`-th of the 32 hexadecimal digits of a UUID. -/
def uuidDigit (id : Uuid) (index : Nat) : Char := hexDigit (id.toNat / 16 ^ (31 - index) % 16)

def uuidText (id : Uuid) : List Char :=
  let digits := (List.range 32).map (uuidDigit id)
  digits.take 8 ++ ['-'] ++ (digits.drop 8).take 4 ++ ['-'] ++ (digits.drop 12).take 4 ++ ['-'] ++
    (digits.drop 16).take 4 ++ ['-'] ++ digits.drop 20

def escapeChar (c : Char) : List Char :=
  if c = '"' then ['\\', '"']
  else if c = '\\' then ['\\', '\\']
  else if c.toNat = 8 then ['\\', 'b']
  else if c.toNat = 9 then ['\\', 't']
  else if c.toNat = 10 then ['\\', 'n']
  else if c.toNat = 12 then ['\\', 'f']
  else if c.toNat = 13 then ['\\', 'r']
  else if c.toNat < 32 then
    ['\\', 'u', '0', '0', hexDigit (c.toNat / 16), hexDigit (c.toNat % 16)]
  else [c]

def quote (text : List Char) : List Char := ['"'] ++ text.flatMap escapeChar ++ ['"']

def commaSeparated (texts : List (List Char)) : List Char := (texts.intersperse [',']).flatten

def arrayText (items : List (List Char)) : List Char := ['['] ++ commaSeparated items ++ [']']

def memberText (key : String) (value : List Char) : List Char :=
  quote key.toList ++ [':'] ++ value

def objectText (members : List (List Char)) : List Char :=
  [Char.ofNat 123] ++ commaSeparated members ++ [Char.ofNat 125]

mutual

/-- The text that `serde_json::to_vec` writes for a value. -/
def Value.text : Value → List Char
  | .null => "null".toList
  | .bool value => (if value then "true" else "false").toList
  | .number text => text.toList
  | .string text => quote text.toList
  | .array items => arrayText (itemTexts items)
  | .object entries => objectText (entryTexts entries)

def itemTexts : List Value → List (List Char)
  | [] => []
  | item :: items => item.text :: itemTexts items

def entryTexts : List (String × Value) → List (List Char)
  | [] => []
  | (key, item) :: entries => memberText key item.text :: entryTexts entries

end

def textBytes (text : List Char) : Nat := (text.map Char.utf8Size).sum

def Value.byteLen (value : Value) : Nat := textBytes value.text

@[simp] theorem textBytes_nil : textBytes [] = 0 := rfl

@[simp] theorem textBytes_cons (c : Char) (text : List Char) :
    textBytes (c :: text) = c.utf8Size + textBytes text := by
  simp [textBytes]

@[simp] theorem textBytes_append (text text' : List Char) :
    textBytes (text ++ text') = textBytes text + textBytes text' := by
  simp [textBytes]

theorem textBytes_commaSeparated (texts : List (List Char)) :
    textBytes (commaSeparated texts) = (texts.map textBytes).sum + (texts.length - 1) := by
  induction texts with
  | nil => rfl
  | cons text texts ih =>
    cases texts with
    | nil => simp [commaSeparated]
    | cons text' texts =>
      have hcomma : Char.utf8Size ',' = 1 := by decide
      have hcons : commaSeparated (text :: text' :: texts) =
          text ++ ',' :: commaSeparated (text' :: texts) := by
        simp [commaSeparated, List.intersperse]
      rw [hcons, textBytes_append, textBytes_cons, hcomma, ih]
      simp only [map_cons, sum_cons, length_cons]
      omega

theorem textBytes_arrayText_perm {texts texts' : List (List Char)} (h : texts.Perm texts') :
    textBytes (arrayText texts) = textBytes (arrayText texts') := by
  have hsum : (texts.map textBytes).sum = (texts'.map textBytes).sum := (h.map textBytes).sum_nat
  simp only [arrayText, textBytes_append, textBytes_commaSeparated, hsum, h.length_eq]

private theorem utf8Size_hexDigit {n : Nat} (h : n < 16) : (hexDigit n).utf8Size = 1 := by
  have hall : ∀ k : Fin 16, (hexDigit k).utf8Size = 1 := by decide
  exact hall ⟨n, h⟩

private theorem textBytes_of_ascii {text : List Char} (h : ∀ c ∈ text, c.utf8Size = 1) :
    textBytes text = text.length := by
  induction text with
  | nil => rfl
  | cons c text ih =>
    rw [textBytes_cons, h c (by simp), ih fun c hc => h c (by simp [hc]), length_cons]
    omega

theorem textBytes_uuidText (id : Uuid) : textBytes (uuidText id) = 36 := by
  have hdigit : ∀ c ∈ (List.range 32).map (uuidDigit id), c.utf8Size = 1 := by
    intro c hc
    obtain ⟨i, -, rfl⟩ := mem_map.mp hc
    exact utf8Size_hexDigit (Nat.mod_lt _ (by decide))
  have hdash : Char.utf8Size '-' = 1 := by decide
  rw [textBytes_of_ascii]
  · simp [uuidText]
  · intro c hc
    simp only [uuidText, mem_append, mem_singleton] at hc
    have hsub : c = '-' ∨ c ∈ (List.range 32).map (uuidDigit id) := by
      rcases hc with (((((((hc | hc) | hc) | hc) | hc) | hc) | hc) | hc) | hc
      all_goals first
        | exact .inl hc
        | exact .inr (mem_of_mem_take hc)
        | exact .inr (mem_of_mem_drop (mem_of_mem_take hc))
        | exact .inr (mem_of_mem_drop hc)
    rcases hsub with rfl | hmem
    · exact hdash
    · exact hdigit c hmem

/-- The JSON string of a UUID; none of its characters is escaped. -/
def uuidJson (id : Uuid) : List Char := ['"'] ++ uuidText id ++ ['"']

theorem textBytes_uuidJson (id : Uuid) : textBytes (uuidJson id) = 38 := by
  have hquote : Char.utf8Size '"' = 1 := by decide
  simp [uuidJson, textBytes_uuidText, hquote]

example : (Value.object [("a", .array [.null, .string "x\"y"])]).byteLen = 19 := by decide

example : String.ofList (uuidText 0x102) = "00000000-0000-0000-0000-000000000102" := by decide

end Stillflow.Core
