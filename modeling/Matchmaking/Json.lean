import Matchmaking.Config
import Mathlib.Algebra.Group.Int.Defs
import Mathlib.Algebra.Group.Nat.Defs
import Mathlib.Data.Char
import Mathlib.Data.List.Lex
import Mathlib.Data.List.Sort

/-!
# JSON documents and the texts of identifiers and time stamps

`Json.dumps` is `json.dumps` with `separators=(",", ":")` and `sort_keys=True`, the form both the
request hash and the callback body are computed from.
-/

namespace Matchmaking

open ReadCommitted (Time)

/-- The 128 bits of a `UUID`; that new ones differ from all others is no part of the type. -/
abbrev UUID := BitVec 128

/-- JSON values with integers only; the service writes no other numbers. -/
inductive Json
  | null
  | bool (b : Bool)
  | int (n : ℤ)
  | str (s : String)
  | arr (items : List Json)
  | obj (fields : List (String × Json))

namespace Json

/-- The value of a field of an object, the first one if the name occurs twice; other documents have no
fields. -/
def get? : Json → String → Option Json
  | .obj fields, name => (fields.find? fun f => f.1 = name).map Prod.snd
  | _, _ => none

/-- `{**document, name: value}`: the field gets the value. It is listed last, wherever it stood before, since
the order of fields has no meaning. -/
def set : Json → String → Json → Json
  | .obj fields, name, v => .obj (fields.filter (fun f => f.1 ≠ name) ++ [(name, v)])
  | j, _, _ => j

/-- A hexadecimal digit, of the number modulo 16. -/
def hexDigit (n : ℕ) : Char := Nat.digitChar (n % 16)

/-- The low `n` hexadecimal digits of a number, as many as are asked for, with zeros in front. -/
def hex (n : ℕ) (v : ℕ) : String :=
  String.ofList ((List.range n).reverse.map fun i => hexDigit (v / 16 ^ i))

/-- One character of a string literal, as `ensure_ascii` writes it: a code point above `U+FFFF`
becomes a pair of surrogates. -/
def escape (c : Char) : String :=
  let v := c.toNat
  if c = '"' then "\\\"" else if c = '\\' then "\\\\"
  else if c = '\n' then "\\n" else if c = '\r' then "\\r" else if c = '\t' then "\\t"
  else if v = 8 then "\\b" else if v = 12 then "\\f"
  else if 32 ≤ v ∧ v ≤ 126 then String.singleton c
  else if v < 65536 then "\\u" ++ hex 4 v
  else "\\u" ++ hex 4 (55296 + (v - 65536) / 1024) ++ "\\u" ++ hex 4 (56320 + (v - 65536) % 1024)

/-- A text in quotes, with control characters and everything beyond ASCII escaped. -/
def quote (s : String) : String := "\"" ++ String.join (s.toList.map escape) ++ "\""

/-- `sort_keys=True`: fields in the order of their names' code points. -/
def sortFields (fields : List (String × String)) : List (String × String) :=
  fields.insertionSort fun f g => f.1.toList ≤ g.1.toList

mutual

/-- `json.dumps(value, sort_keys=True, separators=(",", ":"))`. -/
def dumps : Json → String
  | .null => "null"
  | .bool b => if b then "true" else "false"
  | .int n => toString n
  | .str s => quote s
  | .arr items => "[" ++ String.intercalate "," (dumpsItems items) ++ "]"
  | .obj fields => "\x7b" ++ String.intercalate ","
      ((sortFields (dumpsFields fields)).map fun f => quote f.1 ++ ":" ++ f.2) ++ "\x7d"

/-- The texts of the items of an array. -/
def dumpsItems : List Json → List String
  | [] => []
  | j :: js => j.dumps :: dumpsItems js

/-- The texts of the values of an object, each with its name, before they are sorted. -/
def dumpsFields : List (String × Json) → List (String × String)
  | [] => []
  | (name, j) :: fs => (name, j.dumps) :: dumpsFields fs

end

end Json

/-- `str(uuid)`: the digits in groups of 8, 4, 4, 4 and 12. -/
def uuidText (u : UUID) : String :=
  let v := u.toNat
  Json.hex 8 (v / 16 ^ 24) ++ "-" ++ Json.hex 4 (v / 16 ^ 20) ++ "-" ++ Json.hex 4 (v / 16 ^ 16) ++
    "-" ++ Json.hex 4 (v / 16 ^ 12) ++ "-" ++ Json.hex 12 v

namespace Json

theorem hexDigit_inj {m n : ℕ} (h : hexDigit m = hexDigit n) : m % 16 = n % 16 := by
  have hdigits : ∀ i j : Fin 16, Nat.digitChar i = Nat.digitChar j → i = j := by decide
  exact congrArg Fin.val (hdigits ⟨m % 16, Nat.mod_lt _ (by decide)⟩
    ⟨n % 16, Nat.mod_lt _ (by decide)⟩ h)

/-- Numbers are written with a fixed number of digits. -/
theorem length_hex (n v : ℕ) : (hex n v).toList.length = n := by
  simp [hex]

/-- The digits tell the number up to what they leave out. -/
theorem hex_inj {n v w : ℕ} (h : (hex n v).toList = (hex n w).toList) : v % 16 ^ n = w % 16 ^ n := by
  have hdigits : ∀ i < n, v / 16 ^ i % 16 = w / 16 ^ i % 16 := by
    rw [hex, hex, String.toList_ofList, String.toList_ofList] at h
    intro i hi
    exact hexDigit_inj (List.map_inj_left.mp h i (by simpa using hi))
  clear h
  induction n with
  | zero => rw [Nat.pow_zero, Nat.mod_one, Nat.mod_one]
  | succ n ih =>
    rw [Nat.mod_pow_succ, Nat.mod_pow_succ, ih fun i hi => hdigits i (Nat.lt_succ_of_lt hi),
      hdigits n (Nat.lt_succ_self n)]

end Json

/-- Different identifiers have different texts. -/
theorem uuidText_inj {u v : UUID} (h : uuidText u = uuidText v) : u = v := by
  have hlist := congrArg String.toList h
  simp only [uuidText, String.toList_append] at hlist
  obtain ⟨h, h₀⟩ := List.append_inj' hlist (by rw [Json.length_hex, Json.length_hex])
  obtain ⟨h, -⟩ := List.append_inj' h rfl
  obtain ⟨h, h₁⟩ := List.append_inj' h (by rw [Json.length_hex, Json.length_hex])
  obtain ⟨h, -⟩ := List.append_inj' h rfl
  obtain ⟨h, h₂⟩ := List.append_inj' h (by rw [Json.length_hex, Json.length_hex])
  obtain ⟨h, -⟩ := List.append_inj' h rfl
  obtain ⟨h, h₃⟩ := List.append_inj' h (by rw [Json.length_hex, Json.length_hex])
  obtain ⟨h₄, -⟩ := List.append_inj' h rfl
  have h₀ := Json.hex_inj h₀
  have h₁ := Json.hex_inj h₁
  have h₂ := Json.hex_inj h₂
  have h₃ := Json.hex_inj h₃
  have h₄ := Json.hex_inj h₄
  have hu := u.isLt
  have hv := v.isLt
  apply BitVec.eq_of_toNat_eq
  omega

namespace Json

/-! ## String literals -/

/-- The characters with an escape of two characters, and the second one of it. -/
def shortEscapes : List (Char × Char) := [
  ('"', '"'), ('\\', '\\'), ('\n', 'n'), ('\r', 'r'), ('\t', 't'),
  (Char.ofNat 8, 'b'), (Char.ofNat 12, 'f')]

/-- The shapes of an escaped character: itself, a backslash with one more character, or a `\u` with four
hexadecimal digits, of which a character beyond the basic plane needs two. -/
inductive Escaped : Char → List Char → Prop
  | plain {c : Char} (hslash : c ≠ '\\') (hquote : c ≠ '"') : Escaped c [c]
  | short {c e : Char} (h : (c, e) ∈ shortEscapes) : Escaped c ['\\', e]
  | unit {c : Char} (h : c.toNat < 65536) : Escaped c ('\\' :: 'u' :: (hex 4 c.toNat).toList)
  | pair {c : Char} {high low : ℕ} (h : 65536 ≤ c.toNat)
    (hhigh : high = 55296 + (c.toNat - 65536) / 1024)
    (hlow : low = 56320 + (c.toNat - 65536) % 1024) :
    Escaped c ('\\' :: 'u' :: (hex 4 high).toList ++ '\\' :: 'u' :: (hex 4 low).toList)

/-- Every escape has one of these shapes. -/
theorem escaped (c : Char) : Escaped c (escape c).toList := by
  have hcode : ∀ n, c.toNat = n → c = Char.ofNat n := fun n h => by rw [← h, Char.ofNat_toNat]
  have hu : "\\u".toList = ['\\', 'u'] := rfl
  dsimp only [escape]
  split_ifs with h₁ h₂ h₃ h₄ h₅ h₆ h₇ h₈ h₉
  · exact h₁ ▸ .short (by decide)
  · exact h₂ ▸ .short (by decide)
  · exact h₃ ▸ .short (by decide)
  · exact h₄ ▸ .short (by decide)
  · exact h₅ ▸ .short (by decide)
  · rw [hcode 8 h₆]
    exact .short (by decide)
  · rw [hcode 12 h₇]
    exact .short (by decide)
  · rw [String.toList_singleton]
    exact .plain h₂ h₁
  · rw [String.toList_append, hu]
    exact .unit h₉
  · rw [String.toList_append, String.toList_append, String.toList_append, hu, List.append_assoc]
    exact .pair (Nat.le_of_not_lt h₉) rfl rfl

/-- So a text that begins with such a number tells the number and what follows it. -/
theorem hex_append_inj {n v w : ℕ} {xs ys : List Char}
    (h : (hex n v).toList ++ xs = (hex n w).toList ++ ys) : v % 16 ^ n = w % 16 ^ n ∧ xs = ys := by
  obtain ⟨hdigits, hrest⟩ := List.append_inj h (by rw [length_hex, length_hex])
  exact ⟨hex_inj hdigits, hrest⟩

/-- The code of a character is no surrogate. -/
theorem toNat_lt_or (c : Char) : c.toNat < 55296 ∨ 57343 < c.toNat ∧ c.toNat < 1114112 := c.valid

/-- No escape is the beginning of another one. -/
theorem Escaped.unique {c d : Char} {xs ys us vs : List Char} (h : Escaped c us) (h' : Escaped d vs)
    (heq : us ++ xs = vs ++ ys) : c = d ∧ xs = ys := by
  -- the letter after the backslash tells the kind of an escape, and which short one it is
  have hshort : ∀ p ∈ shortEscapes, ∀ q ∈ shortEscapes, p.2 = q.2 → p.1 = q.1 := by decide
  have hlong : ∀ p ∈ shortEscapes, p.2 ≠ 'u' := by decide
  have hc := toNat_lt_or c
  have hd := toNat_lt_or d
  cases h with
  | plain hslash hquote =>
    cases h' with
    | plain => simpa using heq
    | _ => simp [hslash] at heq
  | short hmem =>
    cases h' with
    | plain hslash => simp [Ne.symm hslash] at heq
    | short hmem' =>
      simp only [List.cons_append, List.nil_append, List.cons.injEq, true_and] at heq
      exact ⟨hshort _ hmem _ hmem' heq.1, heq.2⟩
    | _ => simp [hlong _ hmem] at heq
  -- both have four hex digits, and a character of its own is no surrogate
  | unit hlow =>
    cases h' with
    | plain hslash => simp [Ne.symm hslash] at heq
    | short hmem => simp [Ne.symm (hlong _ hmem)] at heq
    | unit hlow' =>
      simp only [List.cons_append, List.cons.injEq, true_and] at heq
      obtain ⟨hcode, hrest⟩ := hex_append_inj heq
      exact ⟨Char.toNat_inj.mp (by omega), hrest⟩
    | pair h' hhigh hlow' =>
      simp only [List.cons_append, List.append_assoc, List.cons.injEq, true_and] at heq
      have hcode := (hex_append_inj heq).1
      omega
  | pair h hhigh hlow =>
    cases h' with
    | plain hslash => simp [Ne.symm hslash] at heq
    | short hmem => simp [Ne.symm (hlong _ hmem)] at heq
    | unit hunit =>
      simp only [List.cons_append, List.append_assoc, List.cons.injEq, true_and] at heq
      have hcode := (hex_append_inj heq).1
      omega
    | pair h' hhigh' hlow' =>
      simp only [List.cons_append, List.append_assoc, List.cons.injEq, true_and] at heq
      obtain ⟨hcode, heq⟩ := hex_append_inj heq
      simp only [List.cons.injEq, true_and] at heq
      obtain ⟨hcode', hrest⟩ := hex_append_inj heq
      exact ⟨Char.toNat_inj.mp (by omega), hrest⟩

/-- No escape begins like the end of a literal. -/
theorem Escaped.no_quote {c : Char} {us xs ys : List Char} (h : Escaped c us) :
    us ++ xs ≠ '"' :: ys := by
  cases h with
  | plain hslash hquote => simp [hquote]
  | _ => simp

/-- The characters of a literal. -/
theorem toList_quote (s : String) :
    (quote s).toList = '"' :: (s.toList.flatMap (fun c => (escape c).toList) ++ ['"']) := by
  rw [quote, String.toList_append, String.toList_append, String.toList_join, List.flatMap_map]
  rfl

/-- A literal tells its string, and where it ends. -/
theorem quote_append_inj {s t : String} {xs ys : List Char}
    (h : (quote s).toList ++ xs = (quote t).toList ++ ys) : s = t ∧ xs = ys := by
  have hbody : ∀ cs ds : List Char, cs.flatMap (fun c => (escape c).toList) ++ '"' :: xs
      = ds.flatMap (fun c => (escape c).toList) ++ '"' :: ys → cs = ds ∧ xs = ys := by
    intro cs
    induction cs with
    | nil =>
      intro ds hds
      cases ds with
      | nil => exact ⟨rfl, (List.cons.inj hds).2⟩
      | cons d ds =>
        rw [List.flatMap_cons, List.append_assoc] at hds
        exact absurd hds.symm (escaped d).no_quote
    | cons c cs ih =>
      intro ds hds
      rw [List.flatMap_cons, List.append_assoc] at hds
      cases ds with
      | nil => exact absurd hds (escaped c).no_quote
      | cons d ds =>
        rw [List.flatMap_cons, List.append_assoc] at hds
        obtain ⟨rfl, htail⟩ := (escaped c).unique (escaped d) hds
        obtain ⟨rfl, hrest⟩ := ih ds htail
        exact ⟨rfl, hrest⟩
  rw [toList_quote, toList_quote, List.cons_append, List.cons_append, List.append_assoc,
    List.append_assoc] at h
  obtain ⟨hchars, hrest⟩ := hbody _ _ (List.cons.inj h).2
  exact ⟨String.toList_inj.mp hchars, hrest⟩

end Json

/-- Different integers have different texts. -/
theorem toString_int_inj {m n : ℤ} (h : (toString m).toList = (toString n).toList) : m = n := by
  have hnat : ∀ {m n : ℕ}, m.repr.toList = n.repr.toList → m = n := by
    intro m n h
    rw [Nat.toList_repr, Nat.toList_repr] at h
    rw [← Nat.ofDigitChars_ten_toDigits (n := m), h, Nat.ofDigitChars_ten_toDigits]
  have hminus : ∀ {m n : ℕ}, m.repr.toList ≠ ("-" ++ n.repr).toList := by
    intro m n h
    have hmem : '-' ∈ m.repr.toList := by
      rw [h, String.toList_append]
      exact List.mem_append_left _ (by decide)
    rw [Nat.toList_repr] at hmem
    exact absurd (Nat.isDigit_of_mem_toDigits (by decide) (by decide) hmem) (by decide)
  rw [Int.toString_eq_repr, Int.toString_eq_repr, Int.repr_eq_if, Int.repr_eq_if] at h
  split at h
  · split at h
    · have := hnat h
      omega
    · exact absurd h hminus
  · split at h
    · exact absurd h.symm hminus
    · rw [String.toList_append, String.toList_append] at h
      have := hnat (List.append_cancel_left h)
      omega

/-! ## Time stamps as text -/

/-- The low `n` decimal digits of a number, as `strftime` pads the parts of a date. -/
def decimal (n : ℕ) (v : ℕ) : String :=
  String.ofList ((List.range n).reverse.map fun i => Nat.digitChar (v / 10 ^ i % 10))

/-- Year, month and day of a day counted from 1970-01-01, in the Gregorian calendar. -/
def civil (days : ℤ) : ℤ × ℤ × ℤ :=
  -- eras of 400 years, starting on March 1st of year 0
  let z := days + 719468
  let era := z / 146097
  let doe := z % 146097
  let yoe := (doe - doe / 1460 + doe / 36524 - doe / 146096) / 365
  let doy := doe - (365 * yoe + yoe / 4 - yoe / 100)
  let mp := (5 * doy + 2) / 153
  let month := if mp < 10 then mp + 3 else mp - 9
  (yoe + era * 400 + (if month ≤ 2 then 1 else 0), month, doy - (153 * mp + 2) / 5 + 1)

/-- `strftime("%Y-%m-%dT%H:%M:%S")` of a UTC time; fractions of the second are dropped. -/
def secondsText (t : Time) : String :=
  let total := t / 1000000
  let (y, m, d) := civil (total / 86400)
  let rest := (total % 86400).toNat
  decimal 4 y.toNat ++ "-" ++ decimal 2 m.toNat ++ "-" ++ decimal 2 d.toNat ++ "T" ++
    decimal 2 (rest / 3600) ++ ":" ++ decimal 2 (rest / 60 % 60) ++ ":" ++ decimal 2 (rest % 60)

/-- A UTC time with its microseconds, if it has any. -/
def isoText (t : Time) : String :=
  let micros := (t % 1000000).toNat
  secondsText t ++ (if micros = 0 then "" else "." ++ decimal 6 micros) ++ "Z"

end Matchmaking
