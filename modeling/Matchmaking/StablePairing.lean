import Mathlib.Data.List.Nodup
import Mathlib.Data.List.Sublists

/-!
# Stable pairings of a queue

The members of a queue are paired off, and each of them would rather have a mate who stands further to
the front. A pairing is stable if no two members who must not miss each other would both rather have
each other. Where the members choose in turn, the first one first, the outcome is stable
(`Picks.isStable`), and it is the only stable pairing if the choice is free of doubt
(`IsStable.unique`).
-/

namespace StablePairing

variable {α : Type*} {may must R : α → α → Prop} {l l' l₁ l₂ : List α} {ps qs : List (α × α)} {a b c d : α}

/-- In turn, everybody who is still there takes the first of the rest that suits. Who suits for certain
(`must`) is not passed over, and who does not suit at all (not `may`) is not taken. -/
inductive Picks (may must : α → α → Prop) : List α → List (α × α) → Prop
  | nil : Picks may must [] []
  | skip {a : α} {l : List α} {ps : List (α × α)} : (∀ b ∈ l, ¬ must a b) → Picks may must l ps →
      Picks may must (a :: l) ps
  | pair {a b : α} {l₁ l₂ : List α} {ps : List (α × α)} : may a b → (∀ c ∈ l₁, ¬ must a c) →
      Picks may must (l₁ ++ l₂) ps → Picks may must (a :: (l₁ ++ b :: l₂)) ((a, b) :: ps)

/-- `a` stands before `b` in the list, at some places of it. -/
def Before (l : List α) (a b : α) : Prop := [a, b].Sublist l

/-- `a` and `b` are paired with each other, in either order. -/
def Mates (ps : List (α × α)) (a b : α) : Prop := (a, b) ∈ ps ∨ (b, a) ∈ ps

/-- A pairing of the queue in which nobody is passed over for somebody behind him. -/
structure IsStable (may must : α → α → Prop) (l : List α) (ps : List (α × α)) : Prop where
  /-- Nobody occurs twice. -/
  apart : (ps.flatMap fun p => [p.1, p.2]).Nodup
  /-- The pairs are in the order of their first members. -/
  firsts : (ps.map Prod.fst).Sublist l
  /-- In a pair, the first member stands before the second. -/
  inOrder : ∀ p ∈ ps, Before l p.1 p.2
  /-- The members of a pair suit each other. -/
  allowed : ∀ p ∈ ps, may p.1 p.2
  /-- Of two who must not miss each other, one has a mate that is as good for him. -/
  unblocked : ∀ a b, Before l a b → must a b →
    (∃ c, Mates ps a c ∧ (c = b ∨ Before l c b)) ∨ ∃ c, Mates ps b c ∧ Before l c a

/-! ## Standing before -/

theorem before_cons : Before (c :: l) a b ↔ a = c ∧ b ∈ l ∨ Before l a b := by
  unfold Before
  constructor
  · intro h
    cases h with
    | cons _ h => exact .inr h
    | cons_cons _ h => exact .inl ⟨rfl, List.singleton_sublist.mp h⟩
  · rintro (⟨rfl, hb⟩ | h)
    · exact .cons_cons _ (List.singleton_sublist.mpr hb)
    · exact .cons _ h

theorem Before.mono (h : Before l a b) (hl : l.Sublist l') : Before l' a b := h.trans hl

theorem Before.mem (h : Before l a b) : a ∈ l ∧ b ∈ l :=
  ⟨h.subset List.mem_cons_self, h.subset (List.mem_cons_of_mem _ List.mem_cons_self)⟩

theorem Mates.symm (h : Mates ps a b) : Mates ps b a := Or.symm h

theorem mates_cons : Mates ((a, b) :: ps) c d ↔ c = a ∧ d = b ∨ c = b ∧ d = a ∨ Mates ps c d := by
  unfold Mates
  simp only [List.mem_cons, Prod.mk.injEq]
  tauto

/-- The members of pairs are in the queue. -/
theorem Mates.mem (h : Mates ps a b) (hps : ∀ p ∈ ps, Before l p.1 p.2) : a ∈ l := by
  rcases h with h | h
  · exact (hps _ h).mem.1
  · exact (hps _ h).mem.2

/-- What is left when `b` has gone. -/
theorem sublist_middle : (l₁ ++ l₂).Sublist (l₁ ++ b :: l₂) :=
  (List.Sublist.refl l₁).append (List.sublist_cons_self b l₂)

theorem sublist_of_notMem (h : l.Sublist (l₁ ++ b :: l₂)) (hb : b ∉ l) : l.Sublist (l₁ ++ l₂) := by
  obtain ⟨r₁, r₂, rfl, h₁, h₂⟩ := List.sublist_append_iff.mp h
  refine h₁.append ?_
  rcases List.sublist_cons_iff.mp h₂ with h₂ | ⟨r, rfl, -⟩
  · exact h₂
  · exact absurd (by simp) hb

/-- Two who are still there stand as before. -/
theorem before_middle (h : Before (l₁ ++ b :: l₂) c d) (hc : c ≠ b) (hd : d ≠ b) :
    Before (l₁ ++ l₂) c d :=
  sublist_of_notMem h (by simp [hc.symm, hd.symm])

/-- Who is not before `b` stands behind. -/
theorem before_of_notMem (hc : c ∈ l₁ ++ b :: l₂) (hne : c ≠ b) (hnot : c ∉ l₁) :
    Before (l₁ ++ b :: l₂) b c := by
  rw [List.mem_append, List.mem_cons] at hc
  have hmem : c ∈ l₂ := (hc.resolve_left hnot).resolve_left hne
  exact ((before_cons.mpr (.inl ⟨rfl, hmem⟩) : Before (b :: l₂) b c)).mono (List.sublist_append_right _ _)

/-! ## Choosing in turn is stable -/

theorem Picks.isStable (h : Picks may must l ps) (hl : l.Nodup) : IsStable may must l ps := by
  induction h with
  | nil =>
    exact ⟨.nil, .slnil, fun _ h => (List.not_mem_nil h).elim, fun _ h => (List.not_mem_nil h).elim,
      fun a b h => (List.not_mem_nil h.mem.1).elim⟩
  | @skip a l ps hnone _ ih =>
    have hs := ih (List.nodup_cons.mp hl).2
    have hsub : l.Sublist (a :: l) := List.sublist_cons_self a l
    refine ⟨hs.apart, hs.firsts.trans hsub, fun p hp => (hs.inOrder p hp).mono hsub, hs.allowed,
      fun c d hbefore hmust => ?_⟩
    -- the first member may have found nobody, and then it must be allowed nobody that follows
    rcases before_cons.mp hbefore with ⟨rfl, hd⟩ | hbefore
    · exact absurd hmust (hnone d hd)
    · exact (hs.unblocked c d hbefore hmust).imp
        (fun ⟨e, he, horder⟩ => ⟨e, he, horder.imp_right fun h => h.mono hsub⟩)
        fun ⟨e, he, horder⟩ => ⟨e, he, horder.mono hsub⟩
  | @pair a b l₁ l₂ ps hmay hnone _ ih =>
    obtain ⟨ha, hmiddle⟩ := List.nodup_cons.mp hl
    have hsub : (l₁ ++ l₂).Sublist (a :: (l₁ ++ b :: l₂)) := sublist_middle.trans (List.sublist_cons_self ..)
    have hs := ih (hmiddle.sublist sublist_middle)
    have hb : b ∉ l₁ ++ l₂ := (List.nodup_middle.mp hmiddle).notMem
    have ha' : a ∉ l₁ ++ l₂ := fun h => ha (sublist_middle.subset h)
    have hab : a ≠ b := fun h => ha (by simp [h])
    have hfirst : ∀ c, c ∈ l₁ ++ b :: l₂ → Before (a :: (l₁ ++ b :: l₂)) a c := fun c hc =>
      before_cons.mpr (.inl ⟨rfl, hc⟩)
    -- the pairs chosen later are made of what is left
    have hgone : ∀ c ∈ ps.flatMap fun p => [p.1, p.2], c ∈ l₁ ++ l₂ := by
      intro c hc
      obtain ⟨p, hp, hc⟩ := List.mem_flatMap.mp hc
      rcases List.mem_pair.mp hc with rfl | rfl
      · exact (hs.inOrder p hp).mem.1
      · exact (hs.inOrder p hp).mem.2
    constructor
    · show (a :: b :: ps.flatMap fun p => [p.1, p.2]).Nodup
      rw [List.nodup_cons, List.nodup_cons, List.mem_cons, not_or]
      exact ⟨⟨hab, fun h => ha' (hgone a h)⟩, fun h => hb (hgone b h), hs.apart⟩
    · exact (hs.firsts.trans sublist_middle).cons_cons a
    · intro p hp
      rcases List.mem_cons.mp hp with rfl | hp
      · exact hfirst b (by simp)
      · exact (hs.inOrder p hp).mono hsub
    · intro p hp
      rcases List.mem_cons.mp hp with rfl | hp
      · exact hmay
      · exact hs.allowed p hp
    · intro c d hbefore hmust
      rcases before_cons.mp hbefore with ⟨rfl, hd⟩ | hbefore
      · -- the first member takes `b`, who stands no further back than `d`
        refine .inl ⟨b, mates_cons.mpr (.inl ⟨rfl, rfl⟩), ?_⟩
        by_cases hdb : d = b
        · exact .inl hdb.symm
        · refine .inr (before_cons.mpr (.inr (before_of_notMem hd hdb fun hd' => ?_)))
          exact hnone d hd' hmust
      -- neither is the first member: they are among those left, or one of them was taken as `b`
      · by_cases hcb : c = b
        · exact .inl ⟨a, mates_cons.mpr (.inr (.inl ⟨hcb, rfl⟩)), .inr (hfirst d hbefore.mem.2)⟩
        by_cases hdb : d = b
        · exact .inr ⟨a, mates_cons.mpr (.inr (.inl ⟨hdb, rfl⟩)), hfirst c hbefore.mem.1⟩
        exact (hs.unblocked c d (before_middle hbefore hcb hdb) hmust).imp
          (fun ⟨e, he, horder⟩ =>
            ⟨e, mates_cons.mpr (.inr (.inr he)), horder.imp_right fun h => h.mono hsub⟩)
          fun ⟨e, he, horder⟩ => ⟨e, mates_cons.mpr (.inr (.inr he)), horder.mono hsub⟩

theorem IsStable.mono {may' must' : α → α → Prop} (h : IsStable may must l ps)
    (hmay : ∀ a ∈ l, ∀ b ∈ l, may a b → may' a b) (hmust : ∀ a b, must' a b → must a b) :
    IsStable may' must' l ps where
  apart := h.apart
  firsts := h.firsts
  inOrder := h.inOrder
  allowed p hp := hmay _ (h.inOrder p hp).mem.1 _ (h.inOrder p hp).mem.2 (h.allowed p hp)
  unblocked a b hbefore hb := h.unblocked a b hbefore (hmust a b hb)

/-! ## There is no other -/

/-- A queue has a first member that suits, or none does. -/
theorem exists_first (R : α → Prop) (l : List α) :
    (∀ b ∈ l, ¬ R b) ∨ ∃ l₁ b l₂, l = l₁ ++ b :: l₂ ∧ R b ∧ ∀ c ∈ l₁, ¬ R c := by
  induction l with
  | nil => exact .inl fun _ h => (List.not_mem_nil h).elim
  | cons a l ih =>
    by_cases ha : R a
    · exact .inr ⟨[], a, l, rfl, ha, fun _ h => (List.not_mem_nil h).elim⟩
    · rcases ih with hnone | ⟨l₁, b, l₂, rfl, hb, hnone⟩
      · exact .inl (List.forall_mem_cons.mpr ⟨ha, hnone⟩)
      · exact .inr ⟨a :: l₁, b, l₂, rfl, hb, List.forall_mem_cons.mpr ⟨ha, hnone⟩⟩

/-- Nobody stands before the first. -/
theorem not_before_first (hl : (a :: l).Nodup) : ¬ Before (a :: l) c a := by
  intro h
  rcases before_cons.mp h with ⟨-, hmem⟩ | h
  · exact (List.nodup_cons.mp hl).1 hmem
  · exact (List.nodup_cons.mp hl).1 h.mem.2

/-- Who stands before `b` is one of those in front of `b`. -/
theorem mem_of_before (hl : (l₁ ++ b :: l₂).Nodup) (h : Before (l₁ ++ b :: l₂) c b) : c ∈ l₁ := by
  induction l₁ with
  | nil => exact absurd h (not_before_first hl)
  | cons a l₁ ih =>
    have h : Before (a :: (l₁ ++ b :: l₂)) c b := h
    rcases before_cons.mp h with ⟨rfl, -⟩ | h
    · exact List.mem_cons_self
    · exact List.mem_cons_of_mem _ (ih (List.nodup_cons.mp hl).2 h)

namespace IsStable

theorem nil_of_nil (h : IsStable may must [] ps) : ps = [] := by
  cases ps with
  | nil => rfl
  | cons p ps => exact (List.not_mem_nil (h.inOrder p List.mem_cons_self).mem.1).elim

/-- The mates of the first member stand behind him, as the second of a pair. -/
theorem mate_of_first (h : IsStable may must (a :: l) ps) (hl : (a :: l).Nodup) (hc : Mates ps a c) :
    (a, c) ∈ ps :=
  hc.resolve_right fun hc => not_before_first hl (h.inOrder _ hc)

/-- If no one suits the first member, the others are paired without him. -/
theorem skip (h : IsStable R R (a :: l) ps) (hl : (a :: l).Nodup) (hnone : ∀ b ∈ l, ¬ R a b) :
    IsStable R R l ps := by
  have hmate : ∀ c, ¬ Mates ps a c := by
    intro c hc
    have hpair := h.mate_of_first hl hc
    have hbefore := h.inOrder _ hpair
    rcases before_cons.mp hbefore with ⟨-, hmem⟩ | hbefore
    · exact hnone c hmem (h.allowed _ hpair)
    · exact (List.nodup_cons.mp hl).1 hbefore.mem.1
  have hrest : ∀ {c d}, Before (a :: l) c d → c ≠ a → Before l c d := fun hcd hne =>
    (before_cons.mp hcd).resolve_left fun h => hne h.1
  have hne : ∀ {c d}, Mates ps c d → c ≠ a := by
    rintro c d hcd rfl
    exact hmate d hcd
  refine ⟨h.apart, ?_, fun p hp => hrest (h.inOrder p hp) (hne (.inl hp)), h.allowed, fun c d hcd hR => ?_⟩
  · rcases List.sublist_cons_iff.mp h.firsts with hsub | ⟨r, hr, -⟩
    · exact hsub
    · obtain ⟨p, hp, rfl⟩ : ∃ p ∈ ps, p.1 = a := List.mem_map.mp (hr ▸ List.mem_cons_self)
      exact absurd (.inl hp) (hmate p.2)
  · have hca : c ≠ a := by
      rintro rfl
      exact (List.nodup_cons.mp hl).1 hcd.mem.1
    refine (h.unblocked c d (hcd.mono (List.sublist_cons_self ..)) hR).imp ?_ ?_
    · rintro ⟨e, he, horder⟩
      exact ⟨e, he, horder.imp_right fun horder => hrest horder (hne he.symm)⟩
    · rintro ⟨e, he, horder⟩
      exact ⟨e, he, hrest horder (hne he.symm)⟩

/-- The first member is paired with the first one that suits him. -/
theorem head_of_first (h : IsStable R R (a :: (l₁ ++ b :: l₂)) ps) (hl : (a :: (l₁ ++ b :: l₂)).Nodup)
    (hb : R a b) (hnone : ∀ c ∈ l₁, ¬ R a c) : ∃ qs, ps = (a, b) :: qs := by
  have hpaired : (a, b) ∈ ps := by
    rcases h.unblocked a b (before_cons.mpr (.inl ⟨rfl, by simp⟩)) hb with ⟨c, hc, horder⟩ | ⟨c, -, horder⟩
    · have hpair := h.mate_of_first hl hc
      rcases horder with rfl | horder
      · exact hpair
      · -- such a mate would be one of those that do not suit
        have hca : c ≠ a := fun heq => not_before_first hl (heq ▸ h.inOrder _ hpair)
        have hcb := (before_cons.mp horder).resolve_left fun h => hca h.1
        exact absurd (h.allowed _ hpair) (hnone c (mem_of_before (List.nodup_cons.mp hl).2 hcb))
    · exact absurd horder (not_before_first hl)
  cases ps with
  | nil => exact (List.not_mem_nil hpaired).elim
  | cons p qs =>
    refine ⟨qs, ?_⟩
    rcases List.mem_cons.mp hpaired with rfl | hlater
    · rfl
    · have hmem : a ∈ qs.map Prod.fst := List.mem_map.mpr ⟨_, hlater, rfl⟩
      have hqs : (qs.map Prod.fst).Sublist (l₁ ++ b :: l₂) := h.firsts.tail
      exact absurd (hqs.subset hmem) (List.nodup_cons.mp hl).1

/-- The others are then paired without these two. -/
theorem tail (h : IsStable R R (a :: (l₁ ++ b :: l₂)) ((a, b) :: ps)) (hl : (a :: (l₁ ++ b :: l₂)).Nodup) :
    IsStable R R (l₁ ++ l₂) ps := by
  have hsub : (l₁ ++ l₂).Sublist (a :: (l₁ ++ b :: l₂)) := sublist_middle.trans (List.sublist_cons_self ..)
  have hnodup : (a :: b :: ps.flatMap fun p => [p.1, p.2]).Nodup := h.apart
  obtain ⟨ha, hb⟩ := List.nodup_cons.mp hnodup
  rw [List.mem_cons, not_or] at ha
  -- the pairs that follow have neither of the two in them
  have hne : ∀ {c d}, Mates ps c d → c ≠ a ∧ c ≠ b := by
    intro c d hcd
    have hmem : c ∈ ps.flatMap fun p => [p.1, p.2] := by
      rcases hcd with hcd | hcd
      · exact List.mem_flatMap.mpr ⟨_, hcd, by simp⟩
      · exact List.mem_flatMap.mpr ⟨_, hcd, by simp⟩
    constructor
    · rintro rfl
      exact ha.2 hmem
    · rintro rfl
      exact (List.nodup_cons.mp hb).1 hmem
  -- and of the two orders, the one without `a` and `b` is what is left of the other
  have hleft : ∀ {c d}, Before (a :: (l₁ ++ b :: l₂)) c d → c ≠ a ∧ c ≠ b → d ≠ a ∧ d ≠ b →
      Before (l₁ ++ l₂) c d := by
    intro c d hcd hc hd
    exact before_middle ((before_cons.mp hcd).resolve_left fun h => hc.1 h.1) hc.2 hd.2
  have hrest : ∀ c ∈ l₁ ++ l₂, c ≠ a ∧ c ≠ b := by
    intro c hc
    constructor
    · rintro rfl
      exact (List.nodup_cons.mp hl).1 (sublist_middle.subset hc)
    · rintro rfl
      exact (List.nodup_middle.mp (List.nodup_cons.mp hl).2).notMem hc
  refine ⟨(List.nodup_cons.mp hb).2, ?_, fun p hp => ?_, fun p hp => h.allowed p (List.mem_cons_of_mem _ hp),
    fun c d hcd hR => ?_⟩
  · refine sublist_of_notMem h.firsts.tail fun hmem => ?_
    obtain ⟨p, hp, hpb⟩ := List.mem_map.mp hmem
    exact (hne (.inl hp)).2 hpb
  · exact hleft (h.inOrder p (List.mem_cons_of_mem _ hp)) (hne (.inl hp)) (hne (.inr hp))
  · have hc := hrest c hcd.mem.1
    have hd := hrest d hcd.mem.2
    -- a mate of one of the others is among the others
    have hmates : ∀ {c d}, c ≠ a ∧ c ≠ b → Mates ((a, b) :: ps) c d → Mates ps c d := by
      intro c d hc hcd
      rcases mates_cons.mp hcd with h | h | h
      · exact absurd h.1 hc.1
      · exact absurd h.1 hc.2
      · exact h
    refine (h.unblocked c d (hcd.mono hsub) hR).imp ?_ ?_
    · rintro ⟨e, he, horder⟩
      have he := hmates hc he
      exact ⟨e, he, horder.imp_right fun horder => hleft horder (hne he.symm) hd⟩
    · rintro ⟨e, he, horder⟩
      have he := hmates hd he
      exact ⟨e, he, hleft horder (hne he.symm) hc⟩

/-- A stable pairing is what the members choose in turn. -/
theorem picks (h : IsStable R R l ps) (hl : l.Nodup) : Picks R R l ps := by
  induction hn : l.length using Nat.strong_induction_on generalizing l ps with
  | _ n ih =>
    cases l with
    | nil =>
      rw [h.nil_of_nil]
      exact .nil
    | cons a l =>
      rcases exists_first (R a) l with hnone | ⟨l₁, b, l₂, rfl, hb, hnone⟩
      · exact .skip hnone (ih l.length (by simp at hn; omega) (h.skip hl hnone) (List.nodup_cons.mp hl).2 rfl)
      · obtain ⟨qs, rfl⟩ := h.head_of_first hl hb hnone
        refine .pair hb hnone (ih (l₁ ++ l₂).length ?_ (h.tail hl) ?_ rfl)
        · simp only [List.length_cons, List.length_append] at hn ⊢
          omega
        · exact (List.nodup_cons.mp hl).2.sublist sublist_middle

end IsStable

/-- There is one first member that suits. -/
theorem first_unique {R : α → Prop} (h : l₁ ++ a :: l₂ = l ++ b :: l') (ha : R a) (ha' : ∀ c ∈ l₁, ¬ R c)
    (hb : R b) (hb' : ∀ c ∈ l, ¬ R c) : l₁ = l ∧ a = b ∧ l₂ = l' := by
  induction l₁ generalizing l with
  | nil =>
    cases l with
    | nil =>
      cases h
      exact ⟨rfl, rfl, rfl⟩
    | cons c l =>
      cases h
      exact absurd ha (hb' a List.mem_cons_self)
  | cons c l₁ ih =>
    cases l with
    | nil =>
      cases h
      exact absurd hb (ha' b List.mem_cons_self)
    | cons d l =>
      obtain ⟨rfl, htail⟩ := List.cons.inj h
      obtain ⟨rfl, hab, hl⟩ := ih htail (fun c hc => ha' c (List.mem_cons_of_mem _ hc))
        fun c hc => hb' c (List.mem_cons_of_mem _ hc)
      exact ⟨rfl, hab, hl⟩

/-- Choices that are free of doubt have one outcome. -/
theorem Picks.unique (h : Picks R R l ps) (h' : Picks R R l qs) : ps = qs := by
  induction h generalizing qs with
  | nil =>
    cases h'
    rfl
  | @skip a l ps hnone _ ih =>
    cases h' with
    | skip _ h' => exact ih h'
    | pair hb => exact absurd hb (hnone _ (by simp))
  | @pair a b l₁ l₂ ps hb hnone _ ih =>
    generalize hl : a :: (l₁ ++ b :: l₂) = l at h'
    cases h' with
    | nil => cases hl
    | skip hnone' =>
      obtain ⟨rfl, rfl⟩ := List.cons.inj hl
      exact absurd hb (hnone' b (by simp))
    | pair hb' hnone' h' =>
      obtain ⟨rfl, htail⟩ := List.cons.inj hl
      obtain ⟨rfl, rfl, rfl⟩ := first_unique htail hb hnone hb' hnone'
      rw [ih h']

/-- **The stable pairing is unique.** -/
theorem IsStable.unique (h : IsStable R R l ps) (h' : IsStable R R l qs) (hl : l.Nodup) : ps = qs :=
  (h.picks hl).unique (h'.picks hl)

end StablePairing
