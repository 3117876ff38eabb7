import Matchmaking.Json

/-!
# Canonical JSON texts

The text of `json.dumps` with `sort_keys=True` tells the document up to the order of its fields:
what the request hash and the signature of a callback are computed from has one meaning.
-/

namespace Matchmaking.Json

/-! ## Documents up to the order of fields -/

/-- Fields in the order of their names, those of one name in the order they have. -/
def sortByName {β : Type} (fields : List (String × β)) : List (String × β) :=
  fields.insertionSort fun f g => f.1.toList ≤ g.1.toList

mutual

/-- The document with the fields of all its objects in order. It is what the text with sorted keys can tell of
a document. -/
def canonical : Json → Json
  | .arr items => .arr (canonicalItems items)
  | .obj fields => .obj (sortByName (canonicalFields fields))
  | j => j

/-- Each item in canonical form, in the order of the array. -/
def canonicalItems : List Json → List Json
  | [] => []
  | j :: js => j.canonical :: canonicalItems js

/-- Each field with its value in canonical form, before the fields are sorted. -/
def canonicalFields : List (String × Json) → List (String × Json)
  | [] => []
  | (name, j) :: fs => (name, j.canonical) :: canonicalFields fs

end

/-- The recursion over items is a map, which is what lemmas about lists speak of. -/
theorem canonicalItems_eq (items : List Json) : canonicalItems items = items.map canonical := by
  induction items with
  | nil => rfl
  | cons j js ih => rw [canonicalItems, List.map_cons, ih]

theorem canonicalFields_eq (fields : List (String × Json)) :
    canonicalFields fields = fields.map fun f => (f.1, f.2.canonical) := by
  induction fields with
  | nil => rfl
  | cons f fs ih => rw [canonicalFields, List.map_cons, ih]

/-- The texts of the items are those of a map as well. -/
theorem dumpsItems_eq (items : List Json) : dumpsItems items = items.map dumps := by
  induction items with
  | nil => rfl
  | cons j js ih => rw [dumpsItems, List.map_cons, ih]

/-- And so are the texts of the fields. -/
theorem dumpsFields_eq (fields : List (String × Json)) :
    dumpsFields fields = fields.map fun f => (f.1, f.2.dumps) := by
  induction fields with
  | nil => rfl
  | cons f fs ih => rw [dumpsFields, List.map_cons, ih]

/-- What keeps the names keeps the order. -/
theorem map_sortByName {β γ : Type} (f : β → γ) (fields : List (String × β)) :
    (sortByName fields).map (fun p => (p.1, f p.2))
      = sortByName (fields.map fun p => (p.1, f p.2)) :=
  List.map_insertionSort _ _ _ _ fun _ _ _ _ => Iff.rfl

/-- Sorted fields are left in their order by sorting them again. -/
theorem sortByName_idem {β : Type} (fields : List (String × β)) :
    sortByName (sortByName fields) = sortByName fields := by
  have : Std.Total fun f g : String × β => f.1.toList ≤ g.1.toList := ⟨fun _ _ => le_total _ _⟩
  have : IsTrans (String × β) fun f g => f.1.toList ≤ g.1.toList := ⟨fun _ _ _ => le_trans⟩
  exact (List.pairwise_insertionSort _ fields).insertionSort_eq

theorem mem_sortByName {β : Type} {fields : List (String × β)} {f : String × β} :
    f ∈ sortByName fields ↔ f ∈ fields :=
  List.mem_insertionSort _

/-- Induction over the members of a document. -/
theorem memberInduction {P : Json → Prop} (null : P .null) (bool : ∀ b, P (.bool b))
    (int : ∀ n, P (.int n)) (str : ∀ s, P (.str s))
    (arr : ∀ items, (∀ j ∈ items, P j) → P (.arr items))
    (obj : ∀ fields : List (String × Json), (∀ f ∈ fields, P f.2) → P (.obj fields)) :
    ∀ j, P j
  | .null => null
  | .bool b => bool b
  | .int n => int n
  | .str s => str s
  | .arr items => arr items fun j hj => by
    have := List.sizeOf_lt_of_mem hj
    exact memberInduction null bool int str arr obj j
  | .obj fields => obj fields fun f hf => by
    have hfield : sizeOf f.2 < sizeOf f := by
      obtain ⟨name, j⟩ := f
      simp only [Prod.mk.sizeOf_spec]
      omega
    have := List.sizeOf_lt_of_mem hf
    exact memberInduction null bool int str arr obj f.2
termination_by j => j

/-- Sorting does not change the text. -/
theorem dumps_canonical (j : Json) : j.canonical.dumps = j.dumps := by
  induction j using memberInduction with
  | arr items ih =>
    have hitems : items.map (dumps ∘ canonical) = items.map dumps := List.map_congr_left ih
    rw [canonical, dumps, dumps, canonicalItems_eq, dumpsItems_eq, dumpsItems_eq, List.map_map, hitems]
  | obj fields ih =>
    have hfields : dumpsFields (canonicalFields fields) = dumpsFields fields := by
      rw [canonicalFields_eq, dumpsFields_eq, dumpsFields_eq, List.map_map]
      exact List.map_congr_left fun f hf => Prod.ext rfl (ih f hf)
    have hsort : sortFields (dumpsFields (sortByName (canonicalFields fields)))
        = sortFields (dumpsFields fields) := by
      rw [dumpsFields_eq, map_sortByName, ← dumpsFields_eq, hfields]
      exact sortByName_idem _
    rw [canonical, dumps, dumps, hsort]
  | _ => rfl

/-- Sorting by name changes no lookup, since fields of one name keep their order. -/
theorem find?_sortByName {β : Type} (fields : List (String × β)) (name : String) :
    (sortByName fields).find? (fun f => f.1 = name) = fields.find? fun f => f.1 = name := by
  have hinsert : ∀ (f : String × β) (sorted : List (String × β)),
      (sorted.orderedInsert (fun f g => f.1.toList ≤ g.1.toList) f).find? (fun f => f.1 = name)
        = (f :: sorted).find? fun f => f.1 = name := by
    intro f sorted
    induction sorted with
    | nil => rfl
    | cons g sorted ih =>
      rw [List.orderedInsert_cons]
      split
      · rfl
      · next hle =>
        have hne : f.1 ≠ g.1 := fun h => hle (le_of_eq (congrArg String.toList h))
        by_cases hg : g.1 = name
        · have hf : f.1 ≠ name := fun h => hne (h.trans hg.symm)
          simp [hg, hf]
        · rw [List.find?_cons_of_neg (by simpa using hg), ih]
          simp [List.find?_cons, hg]
  induction fields with
  | nil => rfl
  | cons f fields ih =>
    rw [sortByName, List.insertionSort_cons, hinsert, List.find?_cons, List.find?_cons, ← sortByName, ih]

/-- The fields of the ordered document are the ordered fields. -/
theorem get?_canonical (j : Json) (name : String) : j.canonical.get? name = (j.get? name).map canonical := by
  cases j with
  | obj fields =>
    rw [canonical, get?, get?, find?_sortByName, canonicalFields_eq, List.find?_map, Option.map_map,
      Option.map_map]
    rfl
  | _ => rfl

/-! ## Texts that follow each other -/

/-- What may follow the text of a document: nothing, or the next separator or bracket. -/
def Ends (xs : List Char) : Prop := ∀ c ∈ xs.head?, c ∈ [',', ']', '\x7d']

/-- The text of `a` tells its key and where it ends. -/
def Delimits {α γ : Type} (text : α → List Char) (key : α → γ) (a : α) : Prop :=
  ∀ b xs ys, Ends xs → Ends ys → text a ++ xs = text b ++ ys → key a = key b ∧ xs = ys

theorem ends_nil : Ends [] := fun _ h => by simp at h

/-- It may also end before a comma or a closing bracket, and nowhere else. -/
theorem ends_cons {c : Char} {xs : List Char} (h : c ∈ [',', ']', '\x7d']) : Ends (c :: xs) := by
  intro d hd
  obtain rfl : c = d := by simpa using hd
  exact h

/-- The first of two texts ends at the first character its characters do not allow. -/
theorem delimited_of_forall {p : Char → Bool} (hp : ∀ c ∈ [',', ']', '\x7d'], p c = false)
    {us vs xs ys : List Char} (hus : ∀ c ∈ us, p c) (hvs : ∀ c ∈ vs, p c) (hxs : Ends xs)
    (hys : Ends ys) (h : us ++ xs = vs ++ ys) : us = vs ∧ xs = ys := by
  have hnone : ∀ zs, Ends zs → zs.takeWhile p = [] := by
    intro zs hzs
    cases zs with
    | nil => rfl
    | cons c cs => rw [List.takeWhile_cons_of_neg (by rw [hp c (hzs c rfl)]; decide)]
  have htake := congrArg (List.takeWhile p) h
  rw [List.takeWhile_append_of_pos hus, List.takeWhile_append_of_pos hvs, hnone xs hxs,
    hnone ys hys, List.append_nil, List.append_nil] at htake
  exact ⟨htake, List.append_cancel_left (htake ▸ h)⟩

section Sequences

variable {α γ : Type} {text : α → List Char} {key : α → γ} {close : Char}

/-- The further elements of a sequence, up to its bracket. -/
def further (text : α → List Char) (close : Char) (items : List α) (xs : List Char) : List Char :=
  items.flatMap (fun a => ',' :: text a) ++ close :: xs

/-- After the first item, each comes with a comma before it. -/
theorem further_cons (a : α) (items : List α) (xs : List Char) :
    further text close (a :: items) xs = ',' :: (text a ++ further text close items xs) := by
  simp [further]

/-- The rest of a sequence begins with a comma or the closing bracket, so the text before it ends there. -/
theorem ends_further (hclose : close ∈ [']', '\x7d']) (items : List α) (xs : List Char) :
    Ends (further text close items xs) := by
  cases items with
  | nil => exact ends_cons (List.mem_cons_of_mem _ hclose)
  | cons a items =>
    rw [further_cons]
    exact ends_cons (by decide)

/-- Two sequences with the same text have the same items, if the text of each item shows where it ends. -/
theorem further_inj (hclose : close ∈ [']', '\x7d']) {items items' : List α} {xs ys : List Char}
    (hitems : ∀ a ∈ items, Delimits text key a)
    (h : further text close items xs = further text close items' ys) :
    items.map key = items'.map key ∧ xs = ys := by
  have hcomma : close ≠ ',' := by rintro rfl; revert hclose; decide
  induction items generalizing items' with
  | nil =>
    cases items' with
    | nil => exact ⟨rfl, (List.cons.inj h).2⟩
    | cons b items' =>
      rw [further_cons] at h
      exact absurd (List.cons.inj h).1 hcomma
  | cons a items ih =>
    cases items' with
    | nil =>
      rw [further_cons] at h
      exact absurd (List.cons.inj h).1.symm hcomma
    | cons b items' =>
      rw [further_cons, further_cons] at h
      obtain ⟨hkey, hrest⟩ := hitems a List.mem_cons_self b _ _ (ends_further hclose _ _)
        (ends_further hclose _ _) (List.cons.inj h).2
      obtain ⟨hkeys, hend⟩ := ih (fun a ha => hitems a (List.mem_cons_of_mem _ ha)) hrest
      exact ⟨by rw [List.map_cons, List.map_cons, hkey, hkeys], hend⟩

/-- A sequence in brackets after the opening one: the items with commas between them, the closing bracket, and
what follows. -/
def sequence (text : α → List Char) (close : Char) (items : List α) (xs : List Char) : List Char :=
  match items with
  | [] => close :: xs
  | a :: items => text a ++ further text close items xs

/-- A sequence tells the keys of its elements and where it ends, where no element begins like the end. -/
theorem sequence_inj (hclose : close ∈ [']', '\x7d']) {items items' : List α} {xs ys : List Char}
    (hitems : ∀ a ∈ items, Delimits text key a) (hfirst : ∀ a us vs, text a ++ us ≠ close :: vs)
    (h : sequence text close items xs = sequence text close items' ys) :
    items.map key = items'.map key ∧ xs = ys := by
  cases items with
  | nil =>
    cases items' with
    | nil => exact ⟨rfl, (List.cons.inj h).2⟩
    | cons b items' => exact absurd h.symm (hfirst b _ _)
  | cons a items =>
    cases items' with
    | nil => exact absurd h (hfirst a _ _)
    | cons b items' =>
      obtain ⟨hkey, hrest⟩ := hitems a List.mem_cons_self b _ _ (ends_further hclose _ _)
        (ends_further hclose _ _) h
      obtain ⟨hkeys, hend⟩ := further_inj hclose (fun a ha => hitems a (List.mem_cons_of_mem _ ha)) hrest
      exact ⟨by rw [List.map_cons, List.map_cons, hkey, hkeys], hend⟩

/-- The text that Python joins with commas is the sequence that the proofs take apart from the left. -/
theorem toList_intercalate_append (f : α → String) (close : Char) (items : List α) (xs : List Char) :
    (String.intercalate "," (items.map f)).toList ++ close :: xs
      = sequence (fun a => (f a).toList) close items xs := by
  induction items with
  | nil => rfl
  | cons a items ih =>
    cases items with
    | nil => simp [sequence, further]
    | cons b items =>
      rw [List.map_cons, List.map_cons, String.intercalate_cons_cons, String.toList_append,
        String.toList_append, List.append_assoc, List.append_assoc, ← List.map_cons, ih, sequence, sequence,
        further_cons]
      rfl

end Sequences

/-! ## The text tells the document -/

/-- The text of an array is an opening bracket and a sequence of its items. -/
theorem toList_dumps_arr (items : List Json) (xs : List Char) :
    (dumps (.arr items)).toList ++ xs = '[' :: sequence (fun j => j.dumps.toList) ']' items xs := by
  rw [dumps, dumpsItems_eq, ← toList_intercalate_append]
  simp

/-- A field as it stands in an object: the name in quotes, a colon, and the text of the value. -/
def fieldText (f : String × Json) : String := quote f.1 ++ ":" ++ f.2.dumps

/-- The text of an object is an opening brace and a sequence of its fields, sorted by name. -/
theorem toList_dumps_obj (fields : List (String × Json)) (xs : List Char) :
    (dumps (.obj fields)).toList ++ xs
      = '\x7b' :: sequence (fun f => (fieldText f).toList) '\x7d' (sortByName fields) xs := by
  have hsort : (sortFields (dumpsFields fields)).map (fun f => quote f.1 ++ ":" ++ f.2)
      = (sortByName fields).map fieldText := by
    rw [dumpsFields_eq, show sortFields (fields.map fun f => (f.1, f.2.dumps)) = _ from
      (map_sortByName dumps fields).symm, List.map_map]
    rfl
  rw [dumps, hsort, ← toList_intercalate_append]
  simp

/-- The kinds of documents, as the first character tells them. -/
inductive Kind
  | null | bool | int | str | arr | obj
deriving DecidableEq

/-- The kind of a value, which its first character tells. -/
def kind : Json → Kind
  | .null => .null
  | .bool _ => .bool
  | .int _ => .int
  | .str _ => .str
  | .arr _ => .arr
  | .obj _ => .obj

/-- The kind of value that a first character stands for, if any text begins with it. -/
def kindOf (c : Char) : Option Kind :=
  if c = 'n' then some .null
  else if c = 't' ∨ c = 'f' then some .bool
  else if c = '-' ∨ c.isDigit then some .int
  else if c = '"' then some .str
  else if c = '[' then some .arr
  else if c = '\x7b' then some .obj
  else none

/-- The characters of an integer. -/
theorem mem_toList_int {n : ℤ} {c : Char} (h : c ∈ (toString n).toList) : c = '-' ∨ c.isDigit := by
  have hdigits : ∀ m : ℕ, c ∈ m.repr.toList → c.isDigit := fun m hm => by
    rw [Nat.toList_repr] at hm
    exact Nat.isDigit_of_mem_toDigits (by decide) (by decide) hm
  rw [Int.toString_eq_repr, Int.repr_eq_if] at h
  split at h
  · exact .inr (hdigits _ h)
  · rw [String.toList_append, List.mem_append] at h
    exact h.imp (fun h => by simpa using h) (hdigits _)

/-- The text of a number has at least one digit. -/
theorem toList_int_ne_nil (n : ℤ) : (toString n).toList ≠ [] := by
  rw [Int.toString_eq_repr, Int.repr_eq_if]
  split
  · rw [Nat.toList_repr]
    exact List.ne_nil_of_length_pos Nat.length_toDigits_pos
  · simp

/-- The first character tells the kind. -/
theorem head_dumps (j : Json) : ∃ c cs, j.dumps.toList = c :: cs ∧ kindOf c = some j.kind := by
  cases j with
  | null => exact ⟨'n', _, rfl, rfl⟩
  | bool b => cases b <;> exact ⟨_, _, rfl, rfl⟩
  | int n =>
    obtain ⟨c, cs, hcs⟩ := List.exists_cons_of_ne_nil (toList_int_ne_nil n)
    have hc : c = '-' ∨ c.isDigit := mem_toList_int (hcs ▸ List.mem_cons_self)
    refine ⟨c, cs, hcs, ?_⟩
    have hn : c ≠ 'n' := by rintro rfl; revert hc; decide
    have ht : ¬(c = 't' ∨ c = 'f') := by rintro (rfl | rfl) <;> revert hc <;> decide
    rw [kindOf, if_neg hn, if_neg ht, if_pos hc]
    rfl
  | str s => exact ⟨'"', _, toList_quote s, rfl⟩
  | arr items => exact ⟨'[', _, (List.append_nil _).symm.trans (toList_dumps_arr items []), rfl⟩
  | obj fields => exact ⟨'\x7b', _, (List.append_nil _).symm.trans (toList_dumps_obj fields []), rfl⟩

/-- Values whose texts begin alike are of the same kind. -/
theorem kind_eq {j j' : Json} {xs ys : List Char}
    (h : j.dumps.toList ++ xs = j'.dumps.toList ++ ys) : j.kind = j'.kind := by
  obtain ⟨c, cs, hcs, hc⟩ := head_dumps j
  obtain ⟨d, ds, hds, hd⟩ := head_dumps j'
  rw [hcs, hds] at h
  obtain rfl := (List.cons.inj h).1
  exact Option.some.inj (hc.symm.trans hd)

/-- The text of a field tells its name, which ends with the quote, and its value, if the value's text shows
where it ends. -/
theorem fieldText_delimits {f : String × Json}
    (h : Delimits (fun j : Json => j.dumps.toList) canonical f.2) :
    Delimits (fun f => (fieldText f).toList) (fun f => (f.1, f.2.canonical)) f := by
  intro g xs ys hxs hys heq
  simp only [fieldText, String.toList_append, List.append_assoc] at heq
  obtain ⟨hname, heq⟩ := quote_append_inj heq
  obtain ⟨hvalue, hend⟩ := h g.2 xs ys hxs hys (List.append_cancel_left heq)
  exact ⟨Prod.ext hname hvalue, hend⟩

/-- The text of a document tells it up to the order of fields, and where it ends. -/
theorem dumps_delimits (j : Json) : Delimits (fun j : Json => j.dumps.toList) canonical j := by
  induction j using memberInduction with
  | null =>
    intro j' xs ys _ _ h
    cases j' with
    | null => exact ⟨rfl, List.append_cancel_left h⟩
    | _ => exact absurd (kind_eq h) (by simp [kind])
  | bool b =>
    intro j' xs ys _ _ h
    cases j' with
    | bool b' =>
      cases b <;> cases b'
      · exact ⟨rfl, List.append_cancel_left h⟩
      · exact absurd (List.cons.inj h).1 (by decide)
      · exact absurd (List.cons.inj h).1 (by decide)
      · exact ⟨rfl, List.append_cancel_left h⟩
    | _ => exact absurd (kind_eq h) (by simp [kind])
  | int n =>
    intro j' xs ys hxs hys h
    cases j' with
    | int n' =>
      -- a number ends at the first character that is no digit
      obtain ⟨htext, hend⟩ := delimited_of_forall (p := fun c => c = '-' ∨ c.isDigit) (by simp)
        (fun c hc => decide_eq_true (mem_toList_int hc))
        (fun c hc => decide_eq_true (mem_toList_int hc)) hxs hys h
      exact ⟨by rw [toString_int_inj htext], hend⟩
    | _ => exact absurd (kind_eq h) (by simp [kind])
  | str s =>
    intro j' xs ys _ _ h
    cases j' with
    | str s' =>
      obtain ⟨rfl, hend⟩ := quote_append_inj h
      exact ⟨rfl, hend⟩
    | _ => exact absurd (kind_eq h) (by simp [kind])
  | arr items ih =>
    intro j' xs ys _ _ h
    cases j' with
    | arr items' =>
      -- no item starts with the bracket that closes the array
      have hfirst : ∀ (j : Json) us vs, j.dumps.toList ++ us ≠ ']' :: vs := by
        intro j us vs heq
        obtain ⟨c, cs, hcs, hc⟩ := head_dumps j
        rw [hcs] at heq
        obtain rfl := (List.cons.inj heq).1
        exact absurd hc (by simp [kindOf])
      simp only [toList_dumps_arr] at h
      obtain ⟨hkeys, hend⟩ := sequence_inj (by decide) ih hfirst (List.cons.inj h).2
      refine ⟨?_, hend⟩
      rw [canonical, canonical, canonicalItems_eq, canonicalItems_eq, hkeys]
    | _ => exact absurd (kind_eq h) (by simp [kind])
  | obj fields ih =>
    intro j' xs ys _ _ h
    cases j' with
    | obj fields' =>
      -- no field starts with the brace that closes the object
      have hfirst : ∀ (f : String × Json) us vs, (fieldText f).toList ++ us ≠ '\x7d' :: vs := by
        intro f us vs heq
        simp [fieldText, toList_quote] at heq
      simp only [toList_dumps_obj] at h
      obtain ⟨hkeys, hend⟩ := sequence_inj (by decide)
        (fun f hf => fieldText_delimits (ih f (mem_sortByName.mp hf))) hfirst (List.cons.inj h).2
      refine ⟨?_, hend⟩
      rw [canonical, canonical, canonicalFields_eq, canonicalFields_eq, ← map_sortByName,
        ← map_sortByName, hkeys]
    | _ => exact absurd (kind_eq h) (by simp [kind])

/-- Values with the same text have the same canonical form: this is the direction that a hash of the text
relies on. -/
theorem canonical_eq {j j' : Json} (h : j.dumps = j'.dumps) : j.canonical = j'.canonical :=
  (dumps_delimits j j' [] [] ends_nil ends_nil (congrArg (fun s => s.toList ++ []) h)).1

/-- Documents with one text have the same strings in the same fields. -/
theorem get?_str_eq {j j' : Json} (h : j.dumps = j'.dumps) {name s s' : String}
    (hs : j.get? name = some (.str s)) (hs' : j'.get? name = some (.str s')) : s = s' := by
  have hget := congrArg (fun d => get? d name) (canonical_eq h)
  simp only [get?_canonical, hs, hs', Option.map_some, Option.some.injEq] at hget
  exact Json.str.inj hget

/-- **Canonical texts.** Two documents have the same text exactly when they differ in nothing but the
order of the fields of their objects. -/
theorem dumps_eq_iff (j j' : Json) : j.dumps = j'.dumps ↔ j.canonical = j'.canonical := by
  constructor
  · exact canonical_eq
  · intro h
    rw [← dumps_canonical j, h, dumps_canonical j']

end Matchmaking.Json
