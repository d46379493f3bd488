import DpiEngine.Library.AddressText
import DpiEngine.Library.Digits

/-! # JSON texts

The grammar of JSON over the bytes of a text in UTF-8, with the value that a text
stands for. A printer that leaves strings as they are prints a text of its value
if no string needs an escape.
-/

namespace JsonText

/-- Strings are the bytes of their text, numbers are kept as they are written. -/
inductive Json
  | null
  | bool (b : Bool)
  | number (s : List UInt8)
  | string (s : List UInt8)
  | array (items : List Json)
  | object (members : List (List UInt8 × Json))

/-! ### Strings -/

/-- The character may stand for itself: no quotation mark, backslash or control character. -/
def Unescaped (c : Char) : Prop := 0x20 ≤ c.toNat ∧ c.toNat ≠ 0x22 ∧ c.toNat ≠ 0x5C

/-- What follows the backslash, and what it stands for. -/
def escapes : List (UInt8 × UInt8) :=
  [(0x22, 0x22), (0x5C, 0x5C), (0x2F, 0x2F), (0x62, 0x08), (0x66, 0x0C), (0x6E, 0x0A), (0x72, 0x0D),
    (0x74, 0x09)]

def codeUnit (ds : List Char) : List UInt8 := 0x5C :: 0x75 :: ds.map fun c => .ofNat c.toNat

/-- What stands between quotation marks, and the text it stands for. -/
inductive Body : List UInt8 → List UInt8 → Prop
  | nil : Body [] []
  | char {c : Char} {s v : List UInt8} : Unescaped c → Body s v →
    Body (String.utf8EncodeChar c ++ s) (String.utf8EncodeChar c ++ v)
  | escape {e b : UInt8} {s v : List UInt8} : (e, b) ∈ escapes → Body s v →
    Body (0x5C :: e :: s) (b :: v)
  | unicode {ds : List Char} {c : Char} {s v : List UInt8} : ds.length = 4 →
    AddressText.readHex ds = some c.toNat → Body s v →
    Body (codeUnit ds ++ s) (String.utf8EncodeChar c ++ v)
  | surrogates {ds ds' : List Char} {n n' : ℕ} {c : Char} {s v : List UInt8} : ds.length = 4 →
    ds'.length = 4 → AddressText.readHex ds = some n → AddressText.readHex ds' = some n' →
    0xD800 ≤ n → n < 0xDC00 → 0xDC00 ≤ n' → n' < 0xE000 →
    c.toNat = 0x10000 + (n - 0xD800) * 0x400 + (n' - 0xDC00) → Body s v →
    Body (codeUnit ds ++ codeUnit ds' ++ s) (String.utf8EncodeChar c ++ v)

def quoted (s : List UInt8) : List UInt8 := 0x22 :: (s ++ [0x22])

/-- A string literal and the text it stands for. -/
def Literal (s v : List UInt8) : Prop := ∃ body, s = quoted body ∧ Body body v

/-- A text in UTF-8 whose characters may all stand for themselves. -/
def Plain (s : List UInt8) : Prop :=
  ∃ cs : List Char, (∀ c ∈ cs, Unescaped c) ∧ s = cs.flatMap String.utf8EncodeChar

/-! ### Numbers -/

def IsDigits (s : List UInt8) : Prop := s ≠ [] ∧ ∀ b ∈ s, 0x30 ≤ b ∧ b ≤ 0x39

def IsInteger (s : List UInt8) : Prop := IsDigits s ∧ (s.head? = some 0x30 → s = [0x30])

def IsFraction (s : List UInt8) : Prop := ∃ ds, IsDigits ds ∧ s = 0x2E :: ds

def IsExponent (s : List UInt8) : Prop :=
  ∃ e sign ds, (e = 0x65 ∨ e = 0x45) ∧ sign ∈ [[], [0x2B], [0x2D]] ∧ IsDigits ds ∧
    s = e :: (sign ++ ds)

inductive IsNumber : List UInt8 → Prop
  | mk {minus int frac exp : List UInt8} : minus = [] ∨ minus = [0x2D] → IsInteger int →
    frac = [] ∨ IsFraction frac → exp = [] ∨ IsExponent exp →
    IsNumber (minus ++ int ++ frac ++ exp)

/-! ### Values -/

def Blank (s : List UInt8) : Prop := ∀ b ∈ s, b ∈ [0x20, 0x09, 0x0A, 0x0D]

mutual

/-- A text of a value without blanks around it. -/
inductive Value : List UInt8 → Json → Prop
  | null : Value [0x6E, 0x75, 0x6C, 0x6C] .null
  | true : Value [0x74, 0x72, 0x75, 0x65] (.bool true)
  | false : Value [0x66, 0x61, 0x6C, 0x73, 0x65] (.bool false)
  | number {s : List UInt8} : IsNumber s → Value s (.number s)
  | string {s v : List UInt8} : Literal s v → Value s (.string v)
  | emptyArray {s : List UInt8} : Blank s → Value (0x5B :: (s ++ [0x5D])) (.array [])
  | array {s : List UInt8} {vs : List Json} : Items s vs → Value (0x5B :: (s ++ [0x5D])) (.array vs)
  | emptyObject {s : List UInt8} : Blank s → Value (0x7B :: (s ++ [0x7D])) (.object [])
  | object {s : List UInt8} {ms : List (List UInt8 × Json)} : Members s ms →
    Value (0x7B :: (s ++ [0x7D])) (.object ms)

inductive Items : List UInt8 → List Json → Prop
  | last {a s b : List UInt8} {v : Json} : Blank a → Value s v → Blank b → Items (a ++ s ++ b) [v]
  | more {a s b rest : List UInt8} {v : Json} {vs : List Json} : Blank a → Value s v → Blank b →
    Items rest vs → Items (a ++ s ++ b ++ 0x2C :: rest) (v :: vs)

inductive Members : List UInt8 → List (List UInt8 × Json) → Prop
  | last {a key k b a' s b' : List UInt8} {v : Json} : Blank a → Literal key k → Blank b →
    Blank a' → Value s v → Blank b' → Members (a ++ key ++ b ++ 0x3A :: (a' ++ s ++ b')) [(k, v)]
  | more {a key k b a' s b' rest : List UInt8} {v : Json} {ms : List (List UInt8 × Json)} :
    Blank a → Literal key k → Blank b → Blank a' → Value s v → Blank b' → Members rest ms →
    Members (a ++ key ++ b ++ 0x3A :: (a' ++ s ++ b' ++ 0x2C :: rest)) ((k, v) :: ms)

end

def HasMember (j : Json) (name : List UInt8) (v : Json) : Prop :=
  ∃ ms, j = .object ms ∧ (name, v) ∈ ms

/-- A JSON document of the value. -/
def Document (s : List UInt8) (v : Json) : Prop :=
  ∃ a t b, Blank a ∧ Value t v ∧ Blank b ∧ s = a ++ t ++ b

/-! ### Printing -/

def blanks (n : ℕ) : List UInt8 := List.replicate n 0x20

/-- A line ends with a comma unless it is the last one. -/
def lineEnd {α : Type} (rest : List α) : List UInt8 := if rest.isEmpty then [0x0A] else [0x2C, 0x0A]

mutual

/-- Prints every item and every member on lines of its own, and strings as they are. -/
def print (indent : ℕ) : Json → List UInt8
  | .null => [0x6E, 0x75, 0x6C, 0x6C]
  | .bool true => [0x74, 0x72, 0x75, 0x65]
  | .bool false => [0x66, 0x61, 0x6C, 0x73, 0x65]
  | .number s => s
  | .string s => quoted s
  | .array items => 0x5B :: 0x0A :: (printItems (indent + 2) items ++ blanks indent ++ [0x5D])
  | .object members =>
    0x7B :: 0x0A :: (printMembers (indent + 2) members ++ blanks indent ++ [0x7D])

def printItems (indent : ℕ) : List Json → List UInt8
  | [] => []
  | v :: vs => blanks indent ++ print indent v ++ lineEnd vs ++ printItems indent vs

def printMembers (indent : ℕ) : List (List UInt8 × Json) → List UInt8
  | [] => []
  | (k, v) :: ms =>
    blanks indent ++ quoted k ++ [0x3A, 0x20] ++ print indent v ++ lineEnd ms ++
      printMembers indent ms

end

mutual

/-- The numbers of the value are numbers, and its names need no escape. -/
def Shaped : Json → Prop
  | .null => True
  | .bool _ => True
  | .number s => IsNumber s
  | .string _ => True
  | .array items => ShapedItems items
  | .object members => ShapedMembers members

def ShapedItems : List Json → Prop
  | [] => True
  | v :: vs => Shaped v ∧ ShapedItems vs

def ShapedMembers : List (List UInt8 × Json) → Prop
  | [] => True
  | (k, v) :: ms => Plain k ∧ Shaped v ∧ ShapedMembers ms

end

mutual

def strings : Json → List (List UInt8)
  | .null => []
  | .bool _ => []
  | .number _ => []
  | .string s => [s]
  | .array items => stringsOfItems items
  | .object members => stringsOfMembers members

def stringsOfItems : List Json → List (List UInt8)
  | [] => []
  | v :: vs => strings v ++ stringsOfItems vs

def stringsOfMembers : List (List UInt8 × Json) → List (List UInt8)
  | [] => []
  | (_, v) :: ms => strings v ++ stringsOfMembers ms

end

/-! ### What literals stand for -/

variable {s t v : List UInt8}

theorem Plain.body (h : Plain s) : Body s s := by
  obtain ⟨cs, hcs, rfl⟩ := h
  induction cs with
  | nil => exact .nil
  | cons c cs ih =>
    obtain ⟨hc, hcs⟩ := List.forall_mem_cons.mp hcs
    exact .char hc (ih hcs)

theorem Plain.literal (h : Plain s) : Literal (quoted s) s := ⟨s, rfl, h.body⟩

theorem mem_utf8EncodeChar {c : Char} {b : UInt8} (h : b ∈ String.utf8EncodeChar c) :
    0x80 ≤ b.toNat ∨ b.toNat = c.toNat := by
  have hc : c.val.toNat = c.toNat := rfl
  have hmax := c.val.toNat_lt
  rw [String.utf8EncodeChar, hc] at h
  split_ifs at h with h₁ h₂ h₃
  · right
    rw [List.mem_singleton.mp h, UInt8.toNat_ofNat']
    omega
  all_goals
    left
    simp only [List.mem_cons, List.not_mem_nil, or_false] at h
    rcases h with rfl | rfl | rfl | rfl <;> rw [UInt8.toNat_ofNat'] <;> omega

theorem Plain.byte (h : Plain s) : ∀ b ∈ s, 0x20 ≤ b.toNat ∧ b.toNat ≠ 0x22 ∧ b.toNat ≠ 0x5C := by
  obtain ⟨cs, hcs, rfl⟩ := h
  rintro b hb
  obtain ⟨c, hc, hb⟩ := List.mem_flatMap.mp hb
  rcases mem_utf8EncodeChar hb with hhigh | heq
  · omega
  · rw [heq]
    exact hcs c hc

theorem plain_map {cs : List Char} (h : ∀ c ∈ cs, Unescaped c ∧ c.toNat < 0x80) :
    Plain (cs.map fun c => .ofNat c.toNat) := by
  refine ⟨cs, fun c hc => (h c hc).1, ?_⟩
  induction cs with
  | nil => rfl
  | cons c cs ih =>
    obtain ⟨⟨-, hc⟩, hcs⟩ := List.forall_mem_cons.mp h
    have hbyte : String.utf8EncodeChar c = [.ofNat c.toNat] := by
      have hle : c.val.toNat ≤ 0x7F := Nat.le_of_lt_succ hc
      rw [String.utf8EncodeChar]
      exact if_pos hle
    rw [List.map_cons, List.flatMap_cons, hbyte, ih hcs]
    rfl

def decimal (n : ℕ) : List UInt8 := (Nat.toDigits 10 n).map fun c => .ofNat c.toNat

theorem isInteger_decimal (n : ℕ) : IsInteger (decimal n) := by
  have hdigit {d : ℕ} (hd : d < 10) : (0x30 : UInt8) ≤ .ofNat d.digitChar.toNat ∧
      (.ofNat d.digitChar.toNat : UInt8) ≤ 0x39 ∧
      ((.ofNat d.digitChar.toNat : UInt8) = 0x30 → d.digitChar = '0') := by
    revert d
    decide
  have hdigits : IsDigits (decimal n) := by
    refine ⟨by simp [decimal], fun b hb => ?_⟩
    obtain ⟨c, hc, rfl⟩ := List.mem_map.mp hb
    obtain ⟨d, hd, rfl⟩ := Digits.exists_digitChar (by decide) hc
    exact ⟨(hdigit hd).1, (hdigit hd).2.1⟩
  refine ⟨hdigits, fun hhead => ?_⟩
  rw [decimal, List.head?_map, Option.map_eq_some_iff] at hhead
  obtain ⟨c, hc, hbyte⟩ := hhead
  obtain ⟨d, hd, rfl⟩ := Digits.exists_digitChar (by decide) (List.mem_of_head? hc)
  rw [(hdigit hd).2.2 hbyte] at hc
  obtain rfl := Digits.eq_zero_of_head (by decide) (by decide) hc
  rfl

theorem isNumber_decimal (n : ℕ) : IsNumber (decimal n) := by
  have hnumber := IsNumber.mk (.inl rfl) (isInteger_decimal n) (.inl rfl) (.inl rfl)
  simpa using hnumber

theorem isNumber_fixed (n : ℕ) {places : List UInt8} (h : IsDigits places) :
    IsNumber (decimal n ++ 0x2E :: places) := by
  have hnumber := IsNumber.mk (.inl rfl) (isInteger_decimal n) (.inr ⟨places, h, rfl⟩) (.inl rfl)
  simpa using hnumber

theorem isDigits_replicate_zero (n : ℕ) : IsDigits (List.replicate (n + 1) 0x30) := by
  refine ⟨by simp, fun b hb => ?_⟩
  rw [List.eq_of_mem_replicate hb]
  decide

/-! ### Printed values -/

theorem blank_append (hs : Blank s) (ht : Blank t) : Blank (s ++ t) := by
  rintro b hb
  rcases List.mem_append.mp hb with h | h
  · exact hs b h
  · exact ht b h

theorem blank_blanks (n : ℕ) : Blank (blanks n) := by
  rintro b hb
  rw [List.eq_of_mem_replicate hb]
  decide

theorem blank_nil : Blank [] := fun _ hb => absurd hb List.not_mem_nil

theorem blank_newline : Blank [0x0A] := by
  rintro b hb
  rw [List.mem_singleton.mp hb]
  decide

theorem blank_space : Blank [0x20] := by
  rintro b hb
  rw [List.mem_singleton.mp hb]
  decide

mutual

/-- A value whose strings need no escape is printed as a text of it. -/
theorem value_print (indent : ℕ) : (v : Json) → Shaped v → (∀ s ∈ strings v, Plain s) →
    Value (print indent v) v
  | .null, _, _ => .null
  | .bool true, _, _ => .true
  | .bool false, _, _ => .false
  | .number _, h, _ => .number h
  | .string s, _, hs => .string (hs s (List.mem_singleton_self s)).literal
  | .array vs, h, hs => by
    by_cases hvs : vs = []
    · have hempty := Value.emptyArray (blank_append blank_newline (blank_blanks indent))
      simpa [hvs, print, printItems] using hempty
    · have hitems := items_print (indent + 2) vs hvs h hs blank_newline (blank_blanks indent)
      simpa [print] using Value.array hitems
  | .object ms, h, hs => by
    by_cases hms : ms = []
    · have hempty := Value.emptyObject (blank_append blank_newline (blank_blanks indent))
      simpa [hms, print, printMembers] using hempty
    · have hmembers := members_print (indent + 2) ms hms h hs blank_newline (blank_blanks indent)
      simpa [print] using Value.object hmembers

theorem items_print (indent : ℕ) : (vs : List Json) → vs ≠ [] → ShapedItems vs →
    (∀ s ∈ stringsOfItems vs, Plain s) → {a b : List UInt8} → Blank a → Blank b →
    Items (a ++ printItems indent vs ++ b) vs
  | [], hne, _, _, _, _, _, _ => absurd rfl hne
  | v :: vs, _, h, hs, a, b, ha, hb => by
    obtain ⟨hsv, hsvs⟩ := List.forall_mem_append.mp hs
    have hv := value_print indent v h.1 hsv
    have hfront := blank_append ha (blank_blanks indent)
    rw [printItems]
    by_cases hvs : vs = []
    · subst hvs
      simpa [printItems, lineEnd] using Items.last hfront hv (blank_append blank_newline hb)
    · have hrest := items_print indent vs hvs h.2 hsvs blank_newline hb
      simpa [lineEnd, hvs] using Items.more hfront hv blank_nil hrest

theorem members_print (indent : ℕ) : (ms : List (List UInt8 × Json)) → ms ≠ [] →
    ShapedMembers ms → (∀ s ∈ stringsOfMembers ms, Plain s) → {a b : List UInt8} → Blank a →
    Blank b → Members (a ++ printMembers indent ms ++ b) ms
  | [], hne, _, _, _, _, _, _ => absurd rfl hne
  | (k, v) :: ms, _, h, hs, a, b, ha, hb => by
    obtain ⟨hsv, hsms⟩ := List.forall_mem_append.mp hs
    have hkey := h.1.literal
    have hv := value_print indent v h.2.1 hsv
    have hfront := blank_append ha (blank_blanks indent)
    rw [printMembers]
    by_cases hms : ms = []
    · subst hms
      have hback := blank_append blank_newline hb
      have hlast := Members.last hfront hkey blank_nil blank_space hv hback
      simpa [printMembers, lineEnd] using hlast
    · have hrest := members_print indent ms hms h.2.2 hsms blank_newline hb
      have hmore := Members.more hfront hkey blank_nil blank_space hv blank_nil hrest
      simpa [lineEnd, hms] using hmore

end

theorem document_print {v : Json} (h : Shaped v) (hs : ∀ s ∈ strings v, Plain s) :
    Document (print 0 v ++ [0x0A]) v :=
  ⟨[], _, [0x0A], blank_nil, value_print 0 v h hs, blank_newline, rfl⟩

theorem shapedItems_iff {vs : List Json} : ShapedItems vs ↔ ∀ v ∈ vs, Shaped v := by
  induction vs with
  | nil => simp [ShapedItems]
  | cons v vs ih => rw [ShapedItems, List.forall_mem_cons, ih]

theorem mem_stringsOfItems {vs : List Json} {s : List UInt8} :
    s ∈ stringsOfItems vs ↔ ∃ v ∈ vs, s ∈ strings v := by
  induction vs with
  | nil => simp [stringsOfItems]
  | cons v vs ih => simp only [stringsOfItems, List.mem_append, ih, List.exists_mem_cons_iff]

theorem mem_stringsOfMembers {ms : List (List UInt8 × Json)} {s : List UInt8} :
    s ∈ stringsOfMembers ms ↔ ∃ m ∈ ms, s ∈ strings m.2 := by
  induction ms with
  | nil => simp [stringsOfMembers]
  | cons m ms ih => simp only [stringsOfMembers, List.mem_append, ih, List.exists_mem_cons_iff]

theorem HasMember.mem_strings {j v : Json} {name s : List UInt8} (h : HasMember j name v)
    (hs : s ∈ strings v) : s ∈ strings j := by
  obtain ⟨ms, rfl, hmem⟩ := h
  exact mem_stringsOfMembers.mpr ⟨_, hmem, hs⟩

end JsonText
