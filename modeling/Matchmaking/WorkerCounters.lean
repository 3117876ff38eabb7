import Matchmaking.Integrity
import Matchmaking.LogRules
import Matchmaking.Composition

/-!
# The counters of the worker

`worker/metrics.py`, and what the log says about it. An iteration counts a match before it commits it,
and its pairs at its very end. Hence the counters agree with the matches and with each other exactly if
no iteration is cut short between its first pair and its end.
-/

namespace Matchmaking

open ReadCommitted ReadCommitted.Triple

variable {rt : Runtime} {i : ℕ} {l : Actor} {settings : Settings} {workerId : String} {offset : ℕ}
  {t : Txn Row} {s : Tables}

/-! ## Counters -/

/-- The counters of the pair loop. -/
structure WorkerMetrics where
  matchesCreated : ℕ := 0
  matchesFailed : ℕ := 0
  pairsFoundTotal : ℕ := 0
  pairsSkippedTotal : ℕ := 0

namespace WorkerMetrics

/-- `record_match`: one more match. -/
def recordMatch (m : WorkerMetrics) : WorkerMetrics :=
  { m with matchesCreated := m.matchesCreated + 1 }

/-- `record_match_failure`: one more pair without a match. -/
def recordMatchFailure (m : WorkerMetrics) : WorkerMetrics :=
  { m with matchesFailed := m.matchesFailed + 1 }

/-- `record_loop_stats`, as far as it concerns the pairs of the loop. -/
def recordLoopStats (m : WorkerMetrics) (pairsFound pairsSkipped : ℕ) : WorkerMetrics :=
  { m with
    pairsFoundTotal := m.pairsFoundTotal + pairsFound
    pairsSkippedTotal := m.pairsSkippedTotal + pairsSkipped }

/-- What an update of the metrics does to these counters. -/
def update (m : WorkerMetrics) : Metric → WorkerMetrics
  | .recordMatch => m.recordMatch
  | .recordMatchFailure => m.recordMatchFailure
  | .recordLoopStats _ pairsFound _ pairsSkipped _ => m.recordLoopStats pairsFound pairsSkipped
  | _ => m

end WorkerMetrics

/-! ## Iterations in the log -/

/-- A row of `matches`. -/
def isMatchRow : (k : Key) → Row k → Bool
  | .matches _, _ => true
  | _, _ => false

/-- The number of matches that a commit adds. -/
def matchesAdded (t : Txn Row) (b : Tables) : ℕ :=
  count isMatchRow (patch t.writes b) - count isMatchRow b

/-- What an iteration of a worker's loop does as far as its counters are concerned. -/
inductive LoopMark
  | metric (m : Metric)
  | committed (n : ℕ)

/-- The metrics that concern the pair loop. -/
def isPairMetric : Metric → Bool
  | .recordMatch | .recordMatchFailure | .recordLoopStats .. => true
  | _ => false

/-- The updates of these metrics and the commits that add matches, among the entries of a worker's loop. -/
def loopMark (e : LogEntry) : Option LoopMark :=
  match e.actor with
  | .runLoop .. =>
    match e.event with
    | .emit m => if isPairMetric m then some (.metric m) else none
    | .commit t b => if matchesAdded t b = 0 then none else some (.committed (matchesAdded t b))
    | _ => none
  | _ => none

/-- What it does to the counters. -/
def LoopMark.grow (g : WorkerMetrics) : LoopMark → WorkerMetrics
  | .metric m => g.update m
  | _ => g

/-- The number of matches that it commits. -/
def LoopMark.matches : LoopMark → ℕ
  | .committed n => n
  | _ => 0

/-- The growth of the counters, from what an iteration has done, newest first. -/
def growth (ms : List LoopMark) : WorkerMetrics := ms.foldr (fun m g => m.grow g) {}

/-- The number of matches that an iteration has committed. -/
def matchesCommitted (ms : List LoopMark) : ℕ := ms.foldr (fun m n => m.matches + n) 0

/-- The statistics of the iteration have been recorded. -/
def HasStats (ms : List LoopMark) : Prop :=
  ∃ fetched found created skipped exceeded,
    .metric (.recordLoopStats fetched found created skipped exceeded) ∈ ms

/-- The iteration has counted a pair, and it has not recorded its statistics. -/
structure CutShort (ms : List LoopMark) : Prop where
  counted : .metric .recordMatch ∈ ms ∨ .metric .recordMatchFailure ∈ ms
  unrecorded : ¬ HasStats ms

/-- The pairs found are those of which a match was made, or was not, or which were skipped. -/
def PairsAccounted (ms : List LoopMark) : Prop :=
  (growth ms).pairsFoundTotal
    = (growth ms).matchesCreated + (growth ms).matchesFailed + (growth ms).pairsSkippedTotal

/-! ## Counting -/

section Counting

variable {m : LoopMark} {ms : List LoopMark}

theorem growth_cons (m : LoopMark) (ms : List LoopMark) : growth (m :: ms) = m.grow (growth ms) := rfl

/-- The newest mark adds its matches to those before. -/
theorem matchesCommitted_cons (m : LoopMark) (ms : List LoopMark) :
    matchesCommitted (m :: ms) = m.matches + matchesCommitted ms := rfl

theorem hasStats_cons (h : HasStats ms) (m : LoopMark) : HasStats (m :: ms) := by
  obtain ⟨fetched, found, created, skipped, exceeded, h⟩ := h
  exact ⟨fetched, found, created, skipped, exceeded, List.mem_cons_of_mem m h⟩

/-- Without statistics no pairs are found or skipped. -/
theorem growth_of_unrecorded (h : ¬ HasStats ms) :
    (growth ms).pairsFoundTotal = 0 ∧ (growth ms).pairsSkippedTotal = 0 := by
  induction ms with
  | nil => exact ⟨rfl, rfl⟩
  | cons m ms ih =>
    have ih := ih fun hms => h (hasStats_cons hms m)
    rw [growth_cons]
    cases m with
    | metric x =>
      cases x with
      | recordLoopStats a b c d e => exact absurd ⟨a, b, c, d, e, List.mem_cons_self⟩ h
      | _ => exact ih
    | _ => exact ih

/-- The counters of pairs stand for the pairs that have been counted. -/
theorem growth_pos_iff : 0 < (growth ms).matchesCreated + (growth ms).matchesFailed ↔
    .metric .recordMatch ∈ ms ∨ .metric .recordMatchFailure ∈ ms := by
  induction ms with
  | nil => simp [growth]
  | cons m ms ih =>
    have hother : m ≠ .metric .recordMatch → m ≠ .metric .recordMatchFailure →
        m.grow (growth ms) = growth ms ∨ (∃ x y, m.grow (growth ms) = (growth ms).recordLoopStats x y) →
        (0 < (growth (m :: ms)).matchesCreated + (growth (m :: ms)).matchesFailed ↔
          .metric .recordMatch ∈ m :: ms ∨ .metric .recordMatchFailure ∈ m :: ms) := by
      intro h h' hgrow
      rw [List.mem_cons, List.mem_cons, growth_cons]
      have hsame : (m.grow (growth ms)).matchesCreated = (growth ms).matchesCreated ∧
          (m.grow (growth ms)).matchesFailed = (growth ms).matchesFailed := by
        obtain hgrow | ⟨x, y, hgrow⟩ := hgrow <;> rw [hgrow] <;> exact ⟨rfl, rfl⟩
      rw [hsame.1, hsame.2, ih]
      simp [h.symm, h'.symm]
    cases m with
    | metric x =>
      cases x with
      | recordMatch =>
        refine iff_of_true ?_ (.inl List.mem_cons_self)
        show 0 < (growth ms).matchesCreated + 1 + (growth ms).matchesFailed
        omega
      | recordMatchFailure =>
        refine iff_of_true ?_ (.inr List.mem_cons_self)
        show 0 < (growth ms).matchesCreated + ((growth ms).matchesFailed + 1)
        omega
      | recordLoopStats a b c d e =>
        exact hother (fun h => by cases h) (fun h => by cases h) (.inr ⟨b, d, rfl⟩)
      | _ => exact hother (fun h => by cases h) (fun h => by cases h) (.inl rfl)
    | _ => exact hother (fun h => by cases h) (fun h => by cases h) (.inl rfl)

end Counting

/-! ## What an iteration may leave -/

/-- What holds of an iteration at any time. -/
structure LoopFine (ms : List LoopMark) : Prop where
  committed : matchesCommitted ms ≤ (growth ms).matchesCreated
  recorded : HasStats ms → matchesCommitted ms = (growth ms).matchesCreated ∧ PairsAccounted ms

/-- An iteration that has gone through `c + f` pairs, and has made matches of `c` of them. -/
structure Underway (c f : ℕ) (ms : List LoopMark) : Prop where
  growth : growth ms = { matchesCreated := c, matchesFailed := f }
  committed : matchesCommitted ms = c
  unrecorded : ¬ HasStats ms

/-- The counters are right unless the iteration is cut short. -/
theorem LoopFine.counted_iff {ms : List LoopMark} (h : LoopFine ms) :
    matchesCommitted ms = (growth ms).matchesCreated ∧ PairsAccounted ms ↔ ¬ CutShort ms := by
  constructor
  · rintro ⟨-, hpairs⟩ hcut
    have hpos := growth_pos_iff.mpr hcut.counted
    obtain ⟨hfound, hskipped⟩ := growth_of_unrecorded hcut.unrecorded
    unfold PairsAccounted at hpairs
    omega
  · intro hcut
    by_cases hstats : HasStats ms
    · exact h.recorded hstats
    have hnone : ¬ 0 < (growth ms).matchesCreated + (growth ms).matchesFailed := fun hpos =>
      hcut ⟨growth_pos_iff.mp hpos, hstats⟩
    obtain ⟨hfound, hskipped⟩ := growth_of_unrecorded hstats
    have hle := h.committed
    unfold PairsAccounted
    omega

namespace Underway

variable {c f : ℕ} {ms : List LoopMark}

/-- Before the first pair nothing has been counted. -/
theorem start : Underway 0 0 [] :=
  ⟨rfl, rfl, fun ⟨_, _, _, _, _, h⟩ => List.not_mem_nil h⟩

/-- Between two pairs the counters agree with the commits. -/
theorem fine (h : Underway c f ms) : LoopFine ms where
  committed := by rw [h.committed, h.growth]
  recorded hstats := absurd hstats h.unrecorded

/-- A mark that is no statistics. -/
theorem unrecorded_cons (h : Underway c f ms) {m : LoopMark}
    (hm : ∀ a b c d e, m ≠ .metric (.recordLoopStats a b c d e)) : ¬ HasStats (m :: ms) := by
  rintro ⟨a, b, c, d, e, hmem⟩
  rcases List.mem_cons.mp hmem with heq | hmem
  · exact hm a b c d e heq.symm
  · exact h.unrecorded ⟨a, b, c, d, e, hmem⟩

/-- A pair without a match is counted as a failure, and commits no match. -/
theorem failed (h : Underway c f ms) : Underway c (f + 1) (.metric .recordMatchFailure :: ms) where
  growth := by rw [growth_cons, h.growth]; rfl
  committed := by rw [matchesCommitted_cons, h.committed]; exact Nat.zero_add c
  unrecorded := h.unrecorded_cons fun _ _ _ _ _ heq => by cases heq

/-- A match is counted before it is committed. -/
theorem made_fine (h : Underway c f ms) : LoopFine (.metric .recordMatch :: ms) where
  committed := by
    rw [matchesCommitted_cons, h.committed, growth_cons, h.growth]
    show 0 + c ≤ c + 1
    omega
  recorded hstats := absurd hstats (h.unrecorded_cons fun _ _ _ _ _ heq => by cases heq)

/-- A pair with a match is counted first and then committed. -/
theorem matched (h : Underway c f ms) :
    Underway (c + 1) f (.committed 1 :: .metric .recordMatch :: ms) where
  growth := by rw [growth_cons, growth_cons, h.growth]; rfl
  committed := by
    rw [matchesCommitted_cons, matchesCommitted_cons, h.committed]
    show 1 + (0 + c) = c + 1
    omega
  unrecorded := by
    rintro ⟨_, _, _, _, _, hmem⟩
    simp only [List.mem_cons, LoopMark.metric.injEq, reduceCtorEq, false_or] at hmem
    exact h.unrecorded ⟨_, _, _, _, _, hmem⟩

/-- The statistics account for all pairs. -/
theorem recorded (h : Underway c f ms) {fetched found created skipped : ℕ} {exceeded : Bool}
    (hfound : found = c + f + skipped) :
    LoopFine (.metric (.recordLoopStats fetched found created skipped exceeded) :: ms) := by
  have hgrowth : Matchmaking.growth
      (.metric (.recordLoopStats fetched found created skipped exceeded) :: ms)
        = ⟨c, f, 0 + found, 0 + skipped⟩ := by
    rw [growth_cons, h.growth]
    rfl
  have hcommitted : matchesCommitted
      (.metric (.recordLoopStats fetched found created skipped exceeded) :: ms) = c := by
    rw [matchesCommitted_cons, h.committed]
    exact Nat.zero_add c
  refine ⟨?_, fun _ => ⟨?_, ?_⟩⟩
  · rw [hcommitted, hgrowth]
  · rw [hcommitted, hgrowth]
  · rw [PairsAccounted, hgrowth]
    show 0 + found = c + f + (0 + skipped)
    omega

end Underway

/-! ## The programs -/

/-- What iterations may leave in the log. -/
def loopRule : LogRule Row Reply Exn Metric Answer Actor LoopMark where
  mark := loopMark
  fine := LoopFine
  start := Underway.start.fine
  begun i l _ := by cases l <;> rfl

/-- Rows of `matches` stay as they are. -/
def matchesStay : RowRel Row := fun _ k =>
  match k with
  | .matches _ => fun v v' => v' = v
  | _ => fun _ _ => True

theorem matchesStay_refl (now : Time) (k : Key) (v : Option (Row k)) : matchesStay now k v v := by
  cases k <;> first | rfl | trivial

/-- Matches that stay over two writes stay over both. -/
theorem matchesStay_trans (now : Time) (k : Key) (v v' v'' : Option (Row k))
    (h : matchesStay now k v v') (h' : matchesStay now k v' v'') : matchesStay now k v v'' := by
  cases k <;> first | exact Eq.trans h' h | trivial

/-- A commit that leaves all matches as they are adds none. -/
theorem matchesAdded_of_stay (h : ∀ k, matchesStay t.start k (s.lookup k) ((patch t.writes s).lookup k)) :
    matchesAdded t s = 0 := by
  have hcount : count isMatchRow (patch t.writes s) = count isMatchRow s := by
    refine count_congr fun k v hv => ?_
    cases k with
    | «matches» m => rw [show _ = _ from h (.matches m)]
    | _ => cases hv
  rw [matchesAdded, hcount, Nat.sub_self]

/-- The commit of a new match adds one. -/
theorem NewMatch.matchesAdded {n : NewMatch} {now : Time}
    (h : Changed IsIndexKey (n.changes now) s (patch t.writes s)) : matchesAdded t s = 1 := by
  obtain ⟨hold, hnew⟩ := h.lookup (.matches n.matchId) (fun h => h) (n.dlookup_match now)
  have hcount : count isMatchRow (patch t.writes s) + weight isMatchRow (.matches n.matchId)
      (s.lookup (.matches n.matchId)) = count isMatchRow s + weight isMatchRow (.matches n.matchId)
      ((patch t.writes s).lookup (.matches n.matchId)) := by
    refine count_changed_row _ fun k v hk hv => ?_
    cases k with
    | «matches» m => rw [NewMatch.frame_match h fun heq => hk (heq ▸ rfl)]
    | _ => cases hv
  rw [hold, hnew] at hcount
  simp only [weight, Option.any_none, Option.any_some, isMatchRow, Bool.false_eq_true, if_false,
    if_true] at hcount
  rw [Matchmaking.matchesAdded]
  omega

section Loop

variable {ms : List LoopMark}

/-- Statements leave no marks, and no commits do while matches stay as they are. -/
theorem loop_composite {ends : Prop} :
    Composite (fun k => ∀ m, k ≠ .matches m) ends (fun m => isPairMetric m = false)
      fun {α : Type} (x : Db α) =>
        x.Uses (Op.Silent loopMark i (.runLoop settings workerId offset) matchesStay) := by
  refine silent_composite (fun k hk now v v' => ?_) (fun time t b hrows => ?_) (fun _ _ _ => rfl)
    fun m hm time => ?_
  · cases k with
    | «matches» m => exact absurd rfl (hk m)
    | _ => trivial
  · show (if matchesAdded t b = 0 then none else some (LoopMark.committed _)) = none
    rw [if_pos (matchesAdded_of_stay hrows)]
  · show (if isPairMetric m = true then some (LoopMark.metric m) else none) = none
    rw [hm]
    rfl

/-- A program that keeps to silent statements. -/
theorem loop_silent {α : Type} {x : Db α}
    (hx : x.Uses (Op.Silent loopMark i (.runLoop settings workerId offset) matchesStay)) :
    Triple (ruleSpec rt loopRule) i (.runLoop settings workerId offset)
      (fun w T => Follows matchesStay w T ∧ loopRule.Marked i ms w T) x
      (fun _ w T => Follows matchesStay w T ∧ loopRule.Marked i ms w T) anything :=
  any (silent matchesStay_refl matchesStay_trans hx)

/-- The same, along with what is established for the commits. -/
theorem loop_ruled {α : Type} {x : Db α} {P : Condition} {Q : α → Condition}
    (h : Triple (commitSpec rt) i (.runLoop settings workerId offset) P x Q anything)
    (hx : x.Uses (Op.Silent loopMark i (.runLoop settings workerId offset) matchesStay)) :
    Triple (ruleSpec rt loopRule) i (.runLoop settings workerId offset)
      (fun w T => P w T ∧ Follows matchesStay w T ∧ loopRule.Marked i ms w T) x
      (fun a w T => Q a w T ∧ Follows matchesStay w T ∧ loopRule.Marked i ms w T) anything :=
  any (ruled h (loop_silent hx))

/-- A metric of the loop may be recorded where its mark is one that the rule allows next. -/
theorem loop_emit {m : Metric} (hm : isPairMetric m = true) (hfine : LoopFine (.metric m :: ms)) :
    Triple (ruleSpec rt loopRule) i (.runLoop settings workerId offset) (loopRule.Marked i ms) (record m)
      (fun _ => loopRule.Marked i (.metric m :: ms)) anything := by
  refine LogRule.emit grows_growth (fun time => ?_) hfine
  show (if isPairMetric m = true then some (LoopMark.metric m) else none) = some (LoopMark.metric m)
  rw [if_pos hm]

/-- Within a transaction, what does not end it leaves no marks. -/
theorem loop_inside : Composite (fun _ => True) False (fun _ => False) fun {α : Type} (x : Db α) =>
    Triple (ruleSpec rt loopRule) i (.runLoop settings workerId offset) (loopRule.Inside i ms) x
      (fun _ => loopRule.Inside i ms) fun _ => loopRule.Inside i ms :=
  inside_composite (fun _ _ _ => rfl) fun _ h => h.elim

/-- The first reservation opens a transaction. -/
theorem reserveTicket_inside (id : UUID) (seconds : ℕ) :
    Triple (ruleSpec rt loopRule) i (.runLoop settings workerId offset) (loopRule.Marked i ms)
      (reserveTicket id workerId seconds) (fun _ => loopRule.Inside i ms)
      fun _ => loopRule.Inside i ms := by
  have htickets := (@loop_inside rt i settings workerId offset ms).tickets (fun _ => trivial)
    fun _ _ _ _ => trivial
  exact .bind (.bind LogRule.select_inside fun _ => .ite (fun _ => htickets.update _ _ _)
    fun _ => .pure _ fun _ _ h => h) fun _ => .pure _ fun _ _ h => h

/-- An attempt at a match leaves no marks, whatever becomes of it. -/
theorem createMatchFromPair_marked (first second : WaitingTicket) (seconds : ℕ) :
    Triple (ruleSpec rt loopRule) i (.runLoop settings workerId offset) (loopRule.Marked i ms)
      (createMatchFromPair first second workerId seconds) (fun _ => loopRule.Marked i ms)
      fun _ => loopRule.Marked i ms := by
  have h := @loop_inside rt i settings workerId offset ms
  have htickets := h.tickets (fun _ => trivial) fun _ _ _ _ => trivial
  have hrelease : ∀ id, Triple (ruleSpec rt loopRule) i (.runLoop settings workerId offset)
      (loopRule.Inside i ms) (releaseTicket id workerId) (fun _ => loopRule.Inside i ms)
      fun _ => loopRule.Inside i ms := fun id => h.releaseTicket htickets id workerId
  -- a transaction is open, so the match is inserted under a savepoint
  have htransaction : Triple (ruleSpec rt loopRule) i (.runLoop settings workerId offset)
      (loopRule.Inside i ms) (transaction (insertMatch first second workerId))
      (fun _ => loopRule.Inside i ms) fun _ => loopRule.Inside i ms := by
    refine .bind LogRule.inTransaction_inside fun nested => .pure_pre fun hnested => ?_
    subst hnested
    refine .bind (h.perform trivial) fun _ => Triple.finish (h.insertMatch htickets (fun _ => trivial)
      (fun _ _ => trivial) (fun _ => trivial) first second workerId) (fun _ => ?_) fun e => ?_
    · exact .bind (h.perform trivial) fun _ => .pure _ fun _ _ h => h
    · exact .bind (h.attempt (h.perform trivial)) fun _ => .throw e fun _ _ h => h
  have hall : Triple (ruleSpec rt loopRule) i (.runLoop settings workerId offset)
      (loopRule.Marked i ms) (createMatchFromPair first second workerId seconds)
      (fun _ => loopRule.Inside i ms) fun _ => loopRule.Inside i ms := by
    refine .bind (reserveTicket_inside _ _) fun _ => .ite (fun _ => .pure _ fun _ _ h => h) fun _ =>
      .bind (h.reserveTicket htickets _ workerId seconds) fun _ => .ite (fun _ =>
        .bind (hrelease _) fun _ => .pure _ fun _ _ h => h) fun _ =>
          .bind (h.attempt htransaction) ?_
    rintro (e | _)
    · exact .ite (fun _ => .bind (hrelease _) fun _ => .bind (hrelease _) fun _ =>
        .throw e fun _ _ h => h) fun _ => .throw e fun _ _ h => h
    · exact .pure _ fun _ _ h => h
  exact hall.conseq (fun _ _ h => h) (fun _ _ _ h => h.2) fun _ _ _ h => h.2

/-- The commit of a match. -/
theorem commit_marked {c f : ℕ} (h : Underway c f ms) :
    Triple (ruleSpec rt loopRule) i (.runLoop settings workerId offset)
      (fun w T => Made w T ∧ loopRule.Marked i (.metric .recordMatch :: ms) w T) (perform .commit)
      (fun _ w T => Idle w T ∧
        loopRule.Marked i (.committed 1 :: .metric .recordMatch :: ms) w T) anything := by
  refine @commit_leaves rt i _ _ loopRule _ _ (some (.committed 1)) (ruled_stable Made.stable) ?_
    h.matched.fine
  rintro w T ⟨n, hn, now, σs, hurl, t, rfl, hhas⟩
  refine ⟨t, rfl, hhas.live, fun time => ?_⟩
  have hadded : matchesAdded t w.committed = 1 := NewMatch.matchesAdded hhas.changed
  show (if matchesAdded t w.committed = 0 then none
    else some (LoopMark.committed (matchesAdded t w.committed))) = _
  rw [hadded]
  rfl

/-- The tickets of the pairs stay in the tables, whoever commits. -/
theorem pairsKnown_lasting_rule (pairs : List (WaitingTicket × WaitingTicket)) :
    (ruleSpec rt loopRule).Lasting i l fun w => PairsKnown pairs w.committed :=
  LogRule.spec_lasting fun _ _ hg h p hp =>
    ⟨(h p hp).1.persist hg.persist, (h p hp).2.persist hg.persist⟩

/-- The pair loop is done, and it has taken up at most `n` pairs. -/
def Counted (i n : ℕ) (r : ℕ × ℕ × Bool) : Condition := fun w T =>
  ∃ c f ms, (Underway c f ms ∧ r.2.1 = c + f ∧ c + f ≤ n) ∧ Follows matchesStay w T ∧
    loopRule.Marked i ms w T

/-- Every pair that is taken up is counted, and every match that is committed. -/
theorem processPairs_counted {loopStart : Time} (pairs : List (WaitingTicket × WaitingTicket)) :
    ∀ c f ms, (∀ p ∈ pairs, SameQueue p.1 p.2) → Underway c f ms →
      Triple (ruleSpec rt loopRule) i (.runLoop settings workerId offset)
        (fun w T => (Clean IsIndexKey w T ∧ PairsKnown pairs w.committed) ∧
          Follows matchesStay w T ∧ loopRule.Marked i ms w T)
        (processPairs settings workerId loopStart pairs c (c + f))
        (Counted i (c + f + pairs.length)) anything := by
  induction pairs with
  | nil => exact fun c f ms _ hms => .pure _ fun _ _ h => ⟨c, f, ms, ⟨hms, rfl, Nat.le_refl _⟩, h.2⟩
  | cons p pairs ih =>
    intro c f ms hsame hms
    obtain ⟨first, second⟩ := p
    have hlasting := @pairsKnown_lasting_rule rt i (.runLoop settings workerId offset) pairs
    -- the time limit of the loop is over: the pairs that are left stay uncounted
    have hstop : ∀ exceeded, Triple (ruleSpec rt loopRule) i (.runLoop settings workerId offset)
        (fun w T => (Clean IsIndexKey w T ∧ PairsKnown ((first, second) :: pairs) w.committed) ∧
          Follows matchesStay w T ∧ loopRule.Marked i ms w T) (pure (c, c + f, exceeded))
        (Counted i (c + f + ((first, second) :: pairs).length)) anything := fun _ =>
      .pure _ fun _ _ h => ⟨c, f, ms, ⟨hms, rfl, Nat.le_add_right _ _⟩, h.2⟩
    -- the rest of the pairs, after this one has been counted
    have hrest : ∀ c₁ f₁ n ms₁, Underway c₁ f₁ ms₁ → c₁ + f₁ = c + f + 1 → n = c₁ + f₁ →
        Triple (ruleSpec rt loopRule) i (.runLoop settings workerId offset)
          (fun w T => (Idle w T ∧ loopRule.Marked i ms₁ w T) ∧ PairsKnown pairs w.committed)
          (processPairs settings workerId loopStart pairs c₁ n)
          (Counted i (c + f + ((first, second) :: pairs).length)) anything := by
      rintro c₁ f₁ _ ms₁ hms₁ hcount rfl
      refine (ih c₁ f₁ ms₁ (fun p hp => hsame p (List.mem_cons_of_mem _ hp)) hms₁).conseq
        (fun w T h => ⟨⟨h.1.1.clean, h.2⟩, Follows.idle h.1.1, h.1.2⟩) ?_ fun _ _ _ _ => trivial
      rintro r w T ⟨c', f', ms', ⟨hms', hr, hle⟩, h⟩
      refine ⟨c', f', ms', ⟨hms', hr, ?_⟩, h⟩
      rw [List.length_cons]
      omega
    -- a failed attempt is counted and rolled back
    have hfail : Triple (ruleSpec rt loopRule) i (.runLoop settings workerId offset)
        (fun w T => loopRule.Marked i ms w T ∧ PairsKnown pairs w.committed) (do
          record .recordMatchFailure
          record .recordRollback
          perform .rollback
          processPairs settings workerId loopStart pairs c (c + f + 1))
        (Counted i (c + f + ((first, second) :: pairs).length)) anything := by
      have hrollback : Triple (ruleSpec rt loopRule) i (.runLoop settings workerId offset)
          (loopRule.Marked i (.metric .recordMatchFailure :: ms)) (perform .rollback)
          (fun _ w T => Idle w T ∧ loopRule.Marked i (.metric .recordMatchFailure :: ms) w T)
          anything :=
        rollback LogRule.marked_stable (fun _ _ _ h => ⟨rfl, h⟩) fun _ _ _ _ _ => trivial
      have hquiet : Triple (ruleSpec rt loopRule) i (.runLoop settings workerId offset)
          (loopRule.Marked i (.metric .recordMatchFailure :: ms)) (record .recordRollback)
          (fun _ => loopRule.Marked i (.metric .recordMatchFailure :: ms)) anything :=
        LogRule.emit_silent grows_growth fun _ => rfl
      exact .bind (keep hlasting (loop_emit rfl hms.failed.fine)) fun _ =>
        .bind (keep hlasting hquiet) fun _ => .bind (keep hlasting hrollback) fun _ =>
        hrest c (f + 1) _ _ hms.failed rfl rfl
    refine .ite (fun _ => hstop _) fun _ => ?_
    -- the clock is read and, where there is still time, the pair is taken up
    have hask := @loop_ruled rt i settings workerId offset ms _ _ _ _ (keep (pairsKnown_lasting
      ((first, second) :: pairs)) (@Triple.ask_ok (commitSpec rt) i _ _ .perfCounter commitSpec_logs
        Clean.stable Clean.unlogged)) ((@loop_composite i settings workerId offset False).ask
          .perfCounter)
    refine .bind hask fun now => .ite (fun _ => hstop _) fun _ => ?_
    -- the match is made under the commit rule, and its marks are those of the counting rule
    have hcreate := ruled (@createMatchFromPair_triple rt i (.runLoop settings workerId offset) first
      second workerId (reservationSeconds settings) (hsame _ List.mem_cons_self))
      (@createMatchFromPair_marked rt i settings workerId offset ms first second
        (reservationSeconds settings))
    have hattempt := (frame hlasting hcreate).pre
      fun w T (h : (Clean IsIndexKey w T ∧ PairsKnown ((first, second) :: pairs) w.committed) ∧
          Follows matchesStay w T ∧ loopRule.Marked i ms w T) =>
        ⟨⟨⟨⟨h.1.1, (h.1.2 _ List.mem_cons_self).1⟩, (h.1.2 _ List.mem_cons_self).2⟩, h.2.2⟩,
          fun p hp => h.1.2 p (List.mem_cons_of_mem _ hp)⟩
    refine .bind (Triple.attempt hattempt) ?_
    -- the attempt has raised, has made no match, or has made one that is still to be committed
    rintro (e | _ | _)
    · exact .ite (fun _ => hfail.pre fun _ _ h => ⟨h.1.2, h.2⟩) fun _ => .throw _ fun _ _ _ => trivial
    · exact hfail.pre fun _ _ h => ⟨h.1.2, h.2⟩
    · have hrecord : Triple (commitSpec rt) i (.runLoop settings workerId offset) Made
          (record .recordMatch) (fun _ => Made) anything :=
        Triple.record commitSpec_logs Made.stable Made.unlogged
      have hmade := ruled hrecord (@loop_emit rt i settings workerId offset ms _ rfl hms.made_fine)
      refine .bind ((keep hlasting hmade.any).pre fun _ _ h => ⟨⟨h.1.1 rfl, h.1.2⟩, h.2⟩) fun _ =>
        .bind (keep hlasting (commit_marked hms)) fun _ => ?_
      exact hrest (c + 1) f _ _ hms.matched (Nat.add_right_comm c 1 f) (Nat.add_right_comm c f 1)

/-- The statistics account for the pairs. -/
theorem matchTickets_counted {loopStart : Time} :
    Triple (ruleSpec rt loopRule) i (.runLoop settings workerId offset)
      (fun w T => Idle w T ∧ loopRule.Marked i [] w T) (matchTickets settings workerId loopStart)
      (fun _ w T => ∃ ms, Follows matchesStay w T ∧ loopRule.Marked i ms w T) anything := by
  have h := @loop_composite i settings workerId offset True
  have htickets := h.tickets (fun _ _ h => by cases h) fun _ _ _ _ _ h => by cases h
  have hcommit : Triple (commitSpec rt) i (.runLoop settings workerId offset)
      (Follows (workerRows workerId settings.workerLeaseSeconds)) (perform .commit) (fun _ => Idle)
      anything := triple_commit_rows.any
  have hrows : ∀ {α : Type} {x : Db α}, UsesRows (workerRows workerId settings.workerLeaseSeconds) x →
      Triple (commitSpec rt) i (.runLoop settings workerId offset)
        (Follows (workerRows workerId settings.workerLeaseSeconds)) x
        (fun _ => Follows (workerRows workerId settings.workerLeaseSeconds)) anything := fun hx =>
    (@triple_rows rt i (.runLoop settings workerId offset) _ _ hx).any
  refine .bind ((loop_ruled (hrows (.cleanupExpiredReservations ..))
    (h.cleanupExpiredReservations htickets)).pre
      fun w T (h : Idle w T ∧ loopRule.Marked i [] w T) => ⟨Follows.idle h.1, Follows.idle h.1, h.2⟩)
    fun expired =>
    .bind (loop_ruled (hrows (.record _)) (h.record rfl)) fun _ =>
    .bind (loop_ruled hcommit (h.commit trivial)) fun _ => ?_
  refine .bind ((loop_ruled listOwnedPartitions_triple (h.listOwnedPartitions workerId)).pre
    fun _ _ h => ⟨Idle.clean h.1, h.2⟩) fun owned =>
    .bind (loop_ruled (Triple.record commitSpec_logs Clean.stable Clean.unlogged) (h.record rfl)) fun _ =>
    .bind (loop_ruled fetchWaitingTickets_triple (h.fetchWaitingTickets _ _ _ _)) fun tickets =>
    .bind (loop_ruled findPairs_known (h.findPairs tickets settings)) fun pairs => ?_
  have hpairs : Triple (ruleSpec rt loopRule) i (.runLoop settings workerId offset)
      (fun w T => ((∀ p ∈ pairs, SameQueue p.1 p.2) ∧ Clean IsIndexKey w T ∧
        PairsKnown pairs w.committed) ∧ Follows matchesStay w T ∧ loopRule.Marked i [] w T)
      (processPairs settings workerId loopStart pairs 0 0) (Counted i pairs.length) anything := by
    have hprocess := fun hsame => @processPairs_counted rt i settings workerId offset loopStart pairs 0 0
      [] hsame .start
    simp only [Nat.zero_add] at hprocess
    refine pre (pure_pre hprocess) ?_
    rintro w T ⟨⟨hsame, hknown⟩, h⟩
    exact ⟨hsame, hknown, h⟩
  refine .bind hpairs ?_
  rintro ⟨matchesCreated, processedPairs, exceeded⟩
  refine .exists_pre fun c => .exists_pre fun f => .exists_pre fun ms => .pure_pre ?_
  rintro ⟨hms, rfl, hle⟩
  have hfine := @Underway.recorded c f ms hms tickets.length pairs.length matchesCreated
    (pairs.length - (c + f)) exceeded (by omega)
  have hrecord : Triple (ruleSpec rt loopRule) i (.runLoop settings workerId offset)
      (fun w T => Follows matchesStay w T ∧ loopRule.Marked i ms w T)
      (record (.recordLoopStats tickets.length pairs.length matchesCreated (pairs.length - (c + f))
        exceeded))
      (fun _ w T => Follows matchesStay w T ∧ loopRule.Marked i (.metric (.recordLoopStats
        tickets.length pairs.length matchesCreated (pairs.length - (c + f)) exceeded) :: ms) w T)
      anything :=
    LogRule.emit_keeping grows_growth (Follows.stable matchesStay) (fun _ _ h => h) (fun _ => rfl) hfine
  exact hrecord.post fun _ _ _ h => ⟨_, h⟩

/-- An iteration leaves what it may. -/
theorem runLoop_counted :
    Triple (ruleSpec rt loopRule) i (.runLoop settings workerId offset)
      (fun w T => Idle w T ∧ loopRule.Marked i [] w T) (runLoop settings workerId offset)
      anything anything := by
  have h := @loop_composite i settings workerId offset True
  have hidle : ∀ {α : Type} {x : Db α},
      Triple (commitSpec rt) i (.runLoop settings workerId offset) Idle x (fun _ => Idle) anything →
      x.Uses (Op.Silent loopMark i (.runLoop settings workerId offset) matchesStay) →
      Triple (ruleSpec rt loopRule) i (.runLoop settings workerId offset)
        (fun w T => Idle w T ∧ loopRule.Marked i [] w T) x
        (fun _ w T => Idle w T ∧ loopRule.Marked i [] w T) anything := fun hx hsilent =>
    (loop_ruled hx hsilent).conseq (fun _ _ h => ⟨h.1, Follows.idle h.1, h.2⟩)
      (fun _ _ _ h => ⟨h.1, h.2.2⟩) fun _ _ _ _ => trivial
  have hrecord : ∀ m, isPairMetric m = false → Triple (ruleSpec rt loopRule) i
      (.runLoop settings workerId offset) (fun w T => Idle w T ∧ loopRule.Marked i [] w T) (record m)
      (fun _ w T => Idle w T ∧ loopRule.Marked i [] w T) anything := fun m hm =>
    hidle (Triple.record commitSpec_logs Idle.stable Idle.unlogged) (h.record hm)
  -- an exception leaves no marks either
  have hlease : Triple (ruleSpec rt loopRule) i (.runLoop settings workerId offset)
      (fun w T => Idle w T ∧ loopRule.Marked i [] w T) (leaseTransaction settings workerId offset)
      (fun _ w T => Idle w T ∧ loopRule.Marked i [] w T) fun _ => loopRule.Marked i [] := by
    have hoperations := h.leaseOperations (fun _ _ h => by cases h) (fun _ _ h => by cases h)
      settings workerId offset
    exact (ruled leaseTransaction_triple (silent matchesStay_refl matchesStay_trans
      (h.bind hoperations fun counts => h.bind (h.commit trivial) fun _ => h.pure counts))).conseq
        (fun _ _ h => ⟨h.1, Follows.idle h.1, h.2⟩) (fun _ _ _ h => ⟨h.1, h.2.2⟩)
        fun _ _ _ h => h.2.2
  have hcommit : Triple (ruleSpec rt loopRule) i (.runLoop settings workerId offset)
      (fun w T => ∃ ms, Follows matchesStay w T ∧ loopRule.Marked i ms w T) (perform .commit)
      anything anything :=
    .exists_pre fun ms => (loop_silent (h.commit trivial)).post fun _ _ _ _ => trivial
  refine .bind (hidle (Triple.ask_ok commitSpec_logs Idle.stable Idle.unlogged) (h.ask _))
    fun loopStart => .bind (hidle (Triple.ask_ok commitSpec_logs Idle.stable Idle.unlogged) (h.ask _))
    fun _ => Triple.finish (.bind (Triple.attempt hlease) ?_) (fun _ => .bind hcommit fun _ =>
      .pure _ fun _ _ h => h) fun _ => Triple.giveUp.any
  rintro (e | ⟨renewed, newlyClaimed, released⟩)
  · have hrollback : Triple (ruleSpec rt loopRule) i (.runLoop settings workerId offset)
        (loopRule.Marked i []) (perform .rollback) (fun _ => loopRule.Marked i []) anything :=
      rollback LogRule.marked_stable (fun _ _ _ h => h) fun _ _ _ _ _ => trivial
    exact .ite (fun _ => .bind hrollback fun _ => .bind (LogRule.emit_silent grows_growth
      fun _ => rfl) fun _ => .throw _ fun _ _ _ => trivial) fun _ => .throw _ fun _ _ _ => trivial
  · exact .bind (hrecord _ rfl) fun _ => .bind (hrecord _ rfl) fun _ => .bind (hrecord _ rfl) fun _ =>
      matchTickets_counted

end Loop

/-- Other actors leave no marks. -/
theorem loopMark_other {e : LogEntry}
    (h : ∀ settings workerId offset, e.actor ≠ .runLoop settings workerId offset) :
    loopMark e = none := by
  unfold loopMark
  split
  · next hl => exact absurd hl (h _ _ _)
  · rfl

/-- The programs keep the rule. -/
theorem loopRule_kept (i : ℕ) (l : Actor) :
    Triple (ruleSpec rt loopRule) i l (fun w T => Idle w T ∧ loopRule.Marked i [] w T) (program rt l)
      (fun a w _ => loopRule.Answers i l (.ok a) w.log) fun e w _ => loopRule.Answers i l (.error e) w.log := by
  by_cases hl : ∃ settings workerId offset, l = .runLoop settings workerId offset
  · obtain ⟨settings, workerId, offset, rfl⟩ := hl
    have hloop : Triple (ruleSpec rt loopRule) i (.runLoop settings workerId offset)
        (fun w T => Idle w T ∧ loopRule.Marked i [] w T) (program rt (.runLoop settings workerId offset))
        anything anything :=
      .bind runLoop_counted fun _ => .pure _ fun _ _ h => h
    exact hloop.conseq (fun _ _ h => h) (fun _ _ _ _ => LogRule.answers_of_none fun _ _ => rfl)
      fun _ _ _ _ => LogRule.answers_of_none fun _ _ => rfl
  · exact unmarked fun time ev => loopMark_other fun settings workerId offset h =>
      hl ⟨settings, workerId, offset, h⟩

/-- In every run, iterations leave what they may. -/
theorem loops_fine {clock : Time} {s : ServiceState}
    (hs : (service rt).Reachable (emptyState clock) s) (j : ℕ) : LoopFine (marks loopMark j s.world.log) :=
  service_fine loopRule_kept hs j

end Matchmaking
