import Matchmaking.ReadCommitted.History

/-!
# Executions of one program

`Runs p τ a`: the program `p` ends with `a` when its operations get the replies listed in the trace
`τ`. What other sessions and the surroundings do shows in the replies only, so a fact about all traces
is a fact about all runs. `Executes` adds the worlds between the operations: along an execution every
part of a program establishes what its triple promises (`Triple.executes`).

`System.Traced` is a run with the trace of every session. Every session that has ended has executed
its program with its trace (`Spec.executes_of_answer`).
-/

namespace ReadCommitted

variable {K X : Type} {V : K → Type} {Y : X → Type} {E M R L α β : Type}

/-- One operation with its reply, which is a value of the operation's type or an exception. -/
structure Exchange (V : K → Type) (Y : X → Type) (E M : Type) where
  {β : Type}
  op : Op V Y E M β
  reply : Except E β

/-- The operations of an execution with their replies, oldest first. It belongs to one session and says
nothing about the others. -/
abbrev Trace (V : K → Type) (Y : X → Type) (E M : Type) := List (Exchange V Y E M)

/-- An outside call and its answer, if the exchange is one. -/
def Exchange.call? : Exchange V Y E M → Option (Sigma fun x => Except E (Y x))
  | ⟨.call x, y⟩ => some ⟨x, y⟩
  | _ => none

/-- The outside calls of an execution with their answers, oldest first. -/
def calls (τ : Trace V Y E M) : List (Sigma fun x => Except E (Y x)) := τ.filterMap Exchange.call?

/-- What the exchange leaves in the log as a mark, if it is that of a mark. -/
def Exchange.emit? : Exchange V Y E M → Option M
  | ⟨.emit m, _⟩ => some m
  | _ => none

/-- The marks that an execution leaves, oldest first. -/
def emits (τ : Trace V Y E M) : List M := τ.filterMap Exchange.emit?

/-- The marks of a run are those of its parts, in order. -/
theorem emits_append (τ τ' : Trace V Y E M) : emits (τ ++ τ') = emits τ ++ emits τ' :=
  List.filterMap_append

/-- The replies an operation can get: looking at the connection and leaving marks never fail. -/
def Op.CanReply : {β : Type} → Op V Y E M β → Except E β → Prop
  | _, .inTransaction, .error _ => False
  | _, .emit _, .error _ => False
  | _, _, _ => True

/-- The program ends with this result after these exchanges. The replies are any that the operations can get,
whether or not a database would give them in this order. -/
inductive Prog.Runs : Prog V Y E M α → Trace V Y E M → α → Prop
  | ret (a : α) : Runs (.ret a) [] a
  | op {β : Type} {o : Op V Y E M β} {next : Except E β → Prog V Y E M α} {r : Except E β}
      {τ : Trace V Y E M} {a : α} (hr : o.CanReply r) (h : Runs (next r) τ a) :
      Runs (.op o next) (⟨o, r⟩ :: τ) a

/-- A trace of a bound program falls into a trace of its first part and one of the rest. -/
theorem Prog.Runs.of_bind {p : Prog V Y E M α} {f : α → Prog V Y E M β} {τ : Trace V Y E M} {b : β}
    (h : (p.bind f).Runs τ b) :
    ∃ a τ₁ τ₂, τ = τ₁ ++ τ₂ ∧ p.Runs τ₁ a ∧ (f a).Runs τ₂ b := by
  induction p generalizing τ with
  | ret a => exact ⟨a, [], τ, rfl, .ret a, h⟩
  | op o next ih =>
    cases h with
    | op hr h =>
      obtain ⟨a, τ₁, τ₂, rfl, hp, hf⟩ := ih _ h
      exact ⟨a, _ :: τ₁, τ₂, rfl, .op hr hp, hf⟩

/-- Every operation of an execution is one that the program uses. -/
theorem Prog.Runs.uses {ok : {β : Type} → Op V Y E M β → Prop} {p : Prog V Y E M α}
    {τ : Trace V Y E M} {a : α} (h : p.Runs τ a) (hp : p.Uses ok) : ∀ x ∈ τ, ok x.op := by
  induction h with
  | ret a => exact fun _ hx => (List.not_mem_nil hx).elim
  | @op _ o _ r _ _ _ _ ih =>
    intro x hx
    rcases List.mem_cons.mp hx with rfl | hx
    · exact hp.1
    · exact ih (hp.2 r) x hx

/-! ## Clients -/

/-- The client ends with this result or exception after these exchanges. -/
def Client.Runs (x : Client V Y E M α) (τ : Trace V Y E M) (r : Except E α) : Prop :=
  Prog.Runs x.run τ r

namespace Client.Runs

variable {x : Client V Y E M α} {τ : Trace V Y E M}

/-- A program that only returns leaves no trace. -/
theorem of_pure {a : α} {r : Except E α} (h : Runs (pure a : Client V Y E M α) τ r) :
    τ = [] ∧ r = .ok a := by
  cases h
  exact ⟨rfl, rfl⟩

theorem of_throw {e : E} {r : Except E α} (h : Runs (throw e : Client V Y E M α) τ r) :
    τ = [] ∧ r = .error e := by
  cases h
  exact ⟨rfl, rfl⟩

/-- The trace of a single operation is its one exchange, and the answer is one that the operation can be
given. -/
theorem of_perform {o : Op V Y E M α} {r : Except E α} (h : Runs (perform o) τ r) :
    τ = [⟨o, r⟩] ∧ o.CanReply r := by
  cases h with
  | op hr h =>
    cases h
    exact ⟨rfl, hr⟩

/-- A sequence raises in its first part, or goes on with its second. -/
theorem of_bind {f : α → Client V Y E M β} {r : Except E β} (h : Runs (x >>= f) τ r) :
    (∃ e, r = .error e ∧ Runs x τ (.error e)) ∨
      ∃ a τ₁ τ₂, τ = τ₁ ++ τ₂ ∧ Runs x τ₁ (.ok a) ∧ Runs (f a) τ₂ r := by
  obtain ⟨e | a, τ₁, τ₂, rfl, hx, hf⟩ := Prog.Runs.of_bind h
  · cases hf
    exact .inl ⟨e, rfl, (List.append_nil τ₁).symm ▸ hx⟩
  · exact .inr ⟨a, τ₁, τ₂, rfl, hx, hf⟩

/-- Either the body ends by itself, or it raises and the handler runs from there; the two traces follow each
other. -/
theorem of_tryCatch {handle : E → Client V Y E M α} {r : Except E α}
    (h : Runs (tryCatch x handle) τ r) : (∃ a, r = .ok a ∧ Runs x τ (.ok a)) ∨
      ∃ e τ₁ τ₂, τ = τ₁ ++ τ₂ ∧ Runs x τ₁ (.error e) ∧ Runs (handle e) τ₂ r := by
  obtain ⟨e | a, τ₁, τ₂, rfl, hx, hf⟩ := Prog.Runs.of_bind h
  · exact .inr ⟨e, τ₁, τ₂, rfl, hx, hf⟩
  · cases hf
    exact .inl ⟨a, rfl, (List.append_nil τ₁).symm ▸ hx⟩

/-- All that a run does is done by operations that the program is made of. -/
theorem uses {ok : {β : Type} → Op V Y E M β → Prop} {r : Except E α} (h : Runs x τ r)
    (hx : x.Uses ok) : ∀ exchange ∈ τ, ok exchange.op :=
  Prog.Runs.uses h hx

end Client.Runs

/-! ## Executions among other sessions -/

section Executions

variable [DecidableEq K] {S : Spec V Y E M R L} {i : ℕ} {l : L}

/-- What an operation replies is among the replies it can give. -/
theorem exec_canReply {locked : K → Bool} {c : Choice Y E} {o : Op V Y E M β}
    {w w' : World V Y E M R L} {T T' : Option (Txn V)} {r : Except E β}
    (h : o.exec i l locked c w T = some (r, w', T')) : o.CanReply r := by
  cases o with
  | inTransaction | emit m =>
    simp only [Op.exec, Option.some.injEq, Prod.mk.injEq] at h
    obtain ⟨rfl, -⟩ := h
    trivial
  | _ => cases r <;> trivial

/-- Session `i` executes the program to its end; between its operations the world moves along its
`env`. -/
inductive Prog.Executes (S : Spec V Y E M R L) (i : ℕ) (l : L) : Prog V Y E M α →
    World V Y E M R L → Option (Txn V) → Trace V Y E M → α → World V Y E M R L → Option (Txn V) → Prop
  | ret (a : α) (w : World V Y E M R L) (T : Option (Txn V)) : Executes S i l (.ret a) w T [] a w T
  | op {β : Type} {o : Op V Y E M β} {next : Except E β → Prog V Y E M α} {r : Except E β}
      {τ : Trace V Y E M} {a : α} {w w' w'' w₁ : World V Y E M R L} {T T'' T₁ : Option (Txn V)}
      {locked : K → Bool} {c : Choice Y E} (henv : S.env i l T w w') (hturn : Turn T locked w')
      (hexec : o.exec i l locked c w' T = some (r, w'', T'')) (hknown : S.known w'')
      (h : Executes S i l (next r) w'' T'' τ a w₁ T₁) :
      Executes S i l (.op o next) w T (⟨o, r⟩ :: τ) a w₁ T₁

namespace Prog.Executes

variable {p : Prog V Y E M α} {w w' w₁ : World V Y E M R L} {T T₁ : Option (Txn V)}
  {τ : Trace V Y E M} {a : α}

/-- An execution among other sessions has, for this session, the trace that its program alone could have. -/
theorem runs (h : p.Executes S i l w T τ a w₁ T₁) : p.Runs τ a := by
  induction h with
  | ret a w T => exact .ret a
  | op _ _ hexec _ _ ih => exact .op (exec_canReply hexec) ih

/-- What the weakest precondition promises holds at the end. -/
theorem outcome {Q : α → Assertion V Y E M R L} (h : p.Executes S i l w T τ a w₁ T₁)
    (hwp : wp S i l Q p w T) : Q a w₁ T₁ := by
  induction h with
  | ret a w T => exact hwp
  | op henv hturn hexec hknown _ ih => exact ih (hwp _ henv _ _ _ _ _ hturn hexec hknown).2

/-- What is known of the reachable worlds holds at the end. -/
theorem known (h : p.Executes S i l w T τ a w₁ T₁) (hw : S.known w) : S.known w₁ := by
  induction h with
  | ret a w T => exact hw
  | op _ _ _ hknown _ ih => exact ih hknown

/-- An execution of a bound program falls into one of its first part and one of the rest, with the world in
between. -/
theorem of_bind {f : α → Prog V Y E M β} {b : β} (h : (p.bind f).Executes S i l w T τ b w₁ T₁) :
    ∃ a w' T' τ₁ τ₂, τ = τ₁ ++ τ₂ ∧ p.Executes S i l w T τ₁ a w' T' ∧
      (f a).Executes S i l w' T' τ₂ b w₁ T₁ := by
  induction p generalizing w T τ with
  | ret a => exact ⟨a, w, T, [], τ, rfl, .ret a w T, h⟩
  | op o next ih =>
    cases h with
    | op henv hturn hexec hknown h =>
      obtain ⟨a, w', T', τ₁, τ₂, rfl, hp, hf⟩ := ih _ h
      exact ⟨a, w', T', _ :: τ₁, τ₂, rfl, .op henv hturn hexec hknown hp, hf⟩

/-- What is executed after one another is executed as one. -/
protected theorem bind {f : α → Prog V Y E M β} {b : β} {w' : World V Y E M R L} {T' : Option (Txn V)}
    {τ' : Trace V Y E M} (h : p.Executes S i l w T τ a w' T') (hf : (f a).Executes S i l w' T' τ' b w₁ T₁) :
    (p.bind f).Executes S i l w T (τ ++ τ') b w₁ T₁ := by
  induction h with
  | ret a w T => exact hf
  | op henv hturn hexec hknown _ ih => exact .op henv hturn hexec hknown (ih hf)

/-- The others may have moved the world before. -/
theorem env {sys : System V Y E M R L} (hS : S.Lawful sys) (h : p.Executes S i l w' T τ a w₁ T₁)
    (henv : S.env i l T w w') (hlog : w.log <:+ w'.log) :
    ∃ w₂, p.Executes S i l w T τ a w₂ T₁ ∧ w₂.log <:+ w₁.log := by
  cases h with
  | ret a => exact ⟨w, .ret a w T, hlog⟩
  | op henv' hturn hexec hknown h =>
    exact ⟨w₁, .op (henv.trans hS henv') hturn hexec hknown h, List.suffix_refl _⟩

end Prog.Executes

/-- The client executes to its end, with a result or an exception. -/
def Client.Executes (S : Spec V Y E M R L) (i : ℕ) (l : L) (x : Client V Y E M α)
    (w : World V Y E M R L) (T : Option (Txn V)) (τ : Trace V Y E M) (r : Except E α)
    (w₁ : World V Y E M R L) (T₁ : Option (Txn V)) : Prop :=
  Prog.Executes S i l x.run w T τ r w₁ T₁

namespace Client.Executes

variable {x : Client V Y E M α} {w w₁ : World V Y E M R L} {T T₁ : Option (Txn V)}
  {τ : Trace V Y E M}

/-- An execution of a client has the trace that the client alone could have, with the same value or
exception. -/
theorem runs {r : Except E α} (h : Executes S i l x w T τ r w₁ T₁) : Runs x τ r :=
  Prog.Executes.runs h

/-- A sequence raises in its first part, or goes on with its second. -/
theorem of_bind {f : α → Client V Y E M β} {r : Except E β}
    (h : Executes S i l (x >>= f) w T τ r w₁ T₁) :
    (∃ e, r = .error e ∧ Executes S i l x w T τ (.error e) w₁ T₁) ∨
      ∃ a w' T' τ₁ τ₂, τ = τ₁ ++ τ₂ ∧ Executes S i l x w T τ₁ (.ok a) w' T' ∧
        Executes S i l (f a) w' T' τ₂ r w₁ T₁ := by
  obtain ⟨e | a, w', T', τ₁, τ₂, rfl, hx, hf⟩ := Prog.Executes.of_bind h
  · cases hf
    exact .inl ⟨e, rfl, (List.append_nil τ₁).symm ▸ hx⟩
  · exact .inr ⟨a, w', T', τ₁, τ₂, rfl, hx, hf⟩

/-- An execution of a guarded body falls into the body's and, where it raised, the handler's. -/
theorem of_tryCatch {handle : E → Client V Y E M α} {r : Except E α}
    (h : Executes S i l (tryCatch x handle) w T τ r w₁ T₁) :
    (∃ a, r = .ok a ∧ Executes S i l x w T τ (.ok a) w₁ T₁) ∨
      ∃ e w' T' τ₁ τ₂, τ = τ₁ ++ τ₂ ∧ Executes S i l x w T τ₁ (.error e) w' T' ∧
        Executes S i l (handle e) w' T' τ₂ r w₁ T₁ := by
  obtain ⟨e | a, w', T', τ₁, τ₂, rfl, hx, hf⟩ := Prog.Executes.of_bind h
  · exact .inr ⟨e, w', T', τ₁, τ₂, rfl, hx, hf⟩
  · cases hf
    exact .inl ⟨a, rfl, (List.append_nil τ₁).symm ▸ hx⟩

end Client.Executes

/-- Along an execution every part of a program establishes what its triple promises. -/
theorem Triple.executes {P : Assertion V Y E M R L} {x : Client V Y E M α}
    {Q : α → Assertion V Y E M R L} {F : E → Assertion V Y E M R L} (h : Triple S i l P x Q F)
    {w w₁ : World V Y E M R L} {T T₁ : Option (Txn V)} {τ : Trace V Y E M} {r : Except E α}
    (hx : x.Executes S i l w T τ r w₁ T₁) (hp : P w T) : outcome Q F r w₁ T₁ :=
  Prog.Executes.outcome hx (h.sound w T hp)

end Executions

/-! ## Runs with traces -/

section Sessions

variable [DecidableEq K] {sys : System V Y E M R L}

/-- A run from `s₀` with the operations that each session has carried out in it. -/
inductive System.Traced (sys : System V Y E M R L) (s₀ : State V Y E M R L) :
    State V Y E M R L → (ℕ → Trace V Y E M) → Prop
  | refl : Traced sys s₀ s₀ fun _ => []
  | other {s s' : State V Y E M R L} {ρ : ℕ → Trace V Y E M} {a : Action Y E L}
      (h : Traced sys s₀ s ρ) (ha : ∀ i c, a ≠ .exec i c) (hexec : sys.exec a s = some s') :
      Traced sys s₀ s' ρ
  | exec {s : State V Y E M R L} {ρ : ℕ → Trace V Y E M} {i : ℕ} {l : L} {born : Store V} {β : Type}
      {o : Op V Y E M β} {next : Except E β → Prog V Y E M (Except E R)} {T T' : Option (Txn V)}
      {c : Choice Y E} {r : Except E β} {w : World V Y E M R L} (h : Traced sys s₀ s ρ)
      (hx : s.session i = some ⟨l, born, .op o next, T⟩)
      (hop : o.exec i l (s.locked i) c s.world T = some (r, w, T')) :
      Traced sys s₀ (s.update i w (some ⟨l, born, next r, T'⟩))
        (Function.update ρ i (ρ i ++ [⟨o, r⟩]))

/-- An operation of a running session is a step. -/
theorem System.exec_op {s : State V Y E M R L} {i : ℕ} {l : L} {born : Store V} {β : Type}
    {o : Op V Y E M β} {next : Except E β → Prog V Y E M (Except E R)} {T T' : Option (Txn V)}
    {c : Choice Y E} {r : Except E β} {w : World V Y E M R L}
    (hx : s.session i = some ⟨l, born, .op o next, T⟩)
    (hop : o.exec i l (s.locked i) c s.world T = some (r, w, T')) :
    sys.exec (.exec i c) s = some (s.update i w (some ⟨l, born, next r, T'⟩)) := by
  simp only [System.exec, hx, hop, Option.map_some]

/-- The traces only accompany a run; without them it is an ordinary run of the system. -/
theorem System.Traced.reachable {s₀ s : State V Y E M R L} {ρ : ℕ → Trace V Y E M}
    (h : sys.Traced s₀ s ρ) : sys.Reachable s₀ s := by
  induction h with
  | refl => exact .refl
  | other _ _ hexec ih => exact .step ih ⟨_, hexec⟩
  | exec _ hx hop ih => exact .step ih ⟨_, System.exec_op hx hop⟩

/-- Every run can be traced. -/
theorem System.Reachable.traced {s₀ s : State V Y E M R L} (h : sys.Reachable s₀ s) :
    ∃ ρ, sys.Traced s₀ s ρ := by
  induction h with
  | refl => exact ⟨_, .refl⟩
  | @step s s' _ hstep ih =>
    obtain ⟨ρ, hρ⟩ := ih
    obtain ⟨a, hexec⟩ := hstep
    cases a with
    | exec i c =>
      have hexec' := hexec
      simp only [System.exec] at hexec'
      split at hexec'
      · next l born β o next T hx =>
        obtain ⟨⟨r, w, T'⟩, hop, rfl⟩ := Option.map_eq_some_iff.mp hexec'
        exact ⟨_, .exec hρ hx hop⟩
      · cases hexec'
    | _ => exact ⟨ρ, .other hρ (fun _ _ h => by cases h) hexec⟩

/-- The call `x` of session `i` was answered with `y`, at some point of the log. -/
def Called (log : List (Entry V Y E M R L)) (i : ℕ) (x : X) (y : Except E (Y x)) : Prop :=
  ∃ e ∈ log, e.session = i ∧ e.event = .call x y

/-- The trace has the outside calls that are logged for session `i`. -/
def Logged (log : List (Entry V Y E M R L)) (i : ℕ) (τ : Trace V Y E M) : Prop :=
  ∀ x y, ⟨x, y⟩ ∈ calls τ ↔ Called log i x y

omit [DecidableEq K] in
/-- What a step adds to the log, an exchange adds to the trace. -/
theorem Logged.append {log new : List (Entry V Y E M R L)} {i : ℕ} {τ τ' : Trace V Y E M}
    (h : Logged log i τ) (hnew : Logged new i τ') : Logged (new ++ log) i (τ ++ τ') := by
  intro x y
  rw [calls, List.filterMap_append, List.mem_append, ← calls, ← calls, h x y, hnew x y]
  simp only [Called, List.mem_append, or_and_right, exists_or]
  exact or_comm

omit [DecidableEq K] in
/-- Entries of other sessions do not touch what the log says of this one. -/
theorem Logged.other {log new : List (Entry V Y E M R L)} {i : ℕ} {τ : Trace V Y E M}
    (h : Logged log i τ) (hnew : ∀ e ∈ new, e.session ≠ i) : Logged (new ++ log) i τ := by
  have hnone : Logged new i ([] : Trace V Y E M) := fun x y =>
    ⟨fun hx => (List.not_mem_nil hx).elim, fun ⟨e, he, hi, _⟩ => (hnew e he hi).elim⟩
  simpa using h.append hnone

omit [DecidableEq K] in
theorem Logged.push {log : List (Entry V Y E M R L)} {e : Entry V Y E M R L} {i : ℕ}
    {τ : Trace V Y E M} (h : Logged log i τ) (he : e.session ≠ i) : Logged (e :: log) i τ :=
  (h.other fun _ he' => List.mem_singleton.mp he' ▸ he : Logged ([e] ++ log) i τ)

omit [DecidableEq K] in
/-- An entry that is no call is not among those that the log keeps of a trace, even if it is the session's
own. -/
theorem Logged.push_quiet {log : List (Entry V Y E M R L)} {e : Entry V Y E M R L} {i : ℕ}
    {τ : Trace V Y E M} (h : Logged log i τ) (he : ∀ x y, e.event ≠ .call x y) :
    Logged (e :: log) i τ := by
  have hnone : Logged [e] i ([] : Trace V Y E M) := fun x y =>
    ⟨fun hx => (List.not_mem_nil hx).elim, fun ⟨e', he', _, hc⟩ =>
      (he x y (List.mem_singleton.mp he' ▸ hc)).elim⟩
  simpa using h.append hnone

/-- An operation logs the call that it is, if it is one. -/
theorem exec_logged {i : ℕ} {l : L} {locked : K → Bool} {c : Choice Y E} {o : Op V Y E M β}
    {w w' : World V Y E M R L} {T T' : Option (Txn V)} {r : Except E β}
    (h : o.exec i l locked c w T = some (r, w', T')) :
    ∃ new, w'.log = new ++ w.log ∧ (∀ e ∈ new, e.session = i) ∧
      Logged new i [(⟨o, r⟩ : Exchange V Y E M)] ∧
      ∀ e ∈ new, ∀ born r', e.event ≠ .answer born r' := by
  have hquiet : ∀ new : List (Entry V Y E M R L), calls [(⟨o, r⟩ : Exchange V Y E M)] = [] →
      (∀ e ∈ new, ∀ x y, e.event ≠ .call x y) → Logged new i [(⟨o, r⟩ : Exchange V Y E M)] := by
    intro new ho hnew x y
    rw [ho]
    exact ⟨fun hx => (List.not_mem_nil hx).elim, fun ⟨e, he, _, hc⟩ => (hnew e he x y hc).elim⟩
  have hsame : w' = w → calls [(⟨o, r⟩ : Exchange V Y E M)] = [] → ∃ new, w'.log = new ++ w.log ∧
      (∀ e ∈ new, e.session = i) ∧ Logged new i [(⟨o, r⟩ : Exchange V Y E M)] ∧
      ∀ e ∈ new, ∀ born r', e.event ≠ .answer born r' := by
    rintro rfl ho
    exact ⟨[], rfl, by simp, hquiet [] ho (by simp), by simp⟩
  have hcommit : w' = T.elim w (w.commit i l) → calls [(⟨o, r⟩ : Exchange V Y E M)] = [] →
      ∃ new, w'.log = new ++ w.log ∧ (∀ e ∈ new, e.session = i) ∧
        Logged new i [(⟨o, r⟩ : Exchange V Y E M)] ∧
        ∀ e ∈ new, ∀ born r', e.event ≠ .answer born r' := by
    rintro rfl ho
    cases T with
    | none => exact ⟨[], rfl, by simp, hquiet [] ho (by simp), by simp⟩
    | some t =>
      simp only [Option.elim, World.commit]
      split
      · exact ⟨[], rfl, by simp, hquiet [] ho (by simp), by simp⟩
      · exact ⟨[_], rfl, by simp, hquiet _ ho (by simp), by simp⟩
  cases o with
  | call x =>
    cases c <;> simp only [Op.exec, Option.some.injEq, Prod.mk.injEq, reduceCtorEq] at h
    obtain ⟨rfl, rfl, rfl⟩ := h
    refine ⟨[_], rfl, by simp, fun x' y' => ?_, by simp⟩
    simp only [calls, Exchange.call?, List.filterMap_cons, List.filterMap_nil, List.mem_singleton,
      Called, exists_eq_left, Event.call.injEq, Sigma.mk.injEq, true_and]
    exact ⟨fun h => ⟨h.1.symm, h.2.symm⟩, fun h => ⟨h.1.symm, h.2.symm⟩⟩
  | commit =>
    cases c <;> simp only [Op.exec, Option.some.injEq, Prod.mk.injEq, reduceCtorEq] at h
    · exact hcommit h.2.1.symm rfl
    · exact hsame h.2.1.symm rfl
    · exact hcommit h.2.1.symm rfl
  | rollback =>
    cases c <;> simp only [Op.exec, Option.some.injEq, Prod.mk.injEq, reduceCtorEq] at h <;>
      exact hsame h.2.1.symm rfl
  | inTransaction =>
    simp only [Op.exec, Option.some.injEq, Prod.mk.injEq] at h
    exact hsame h.2.1.symm rfl
  | emit m =>
    simp only [Op.exec, Option.some.injEq, Prod.mk.injEq] at h
    obtain ⟨-, rfl, -⟩ := h
    exact ⟨[_], rfl, by simp, hquiet _ rfl (by simp), by simp⟩
  | _ => exact hsame (statement_cases h).1 rfl

/-- Steps only add to the log. -/
theorem System.exec_log {a : Action Y E L} {s s' : State V Y E M R L} (h : sys.exec a s = some s') :
    s.world.log <:+ s'.world.log := by
  cases a with
  | start l =>
    simp only [System.exec] at h
    split at h <;> cases h
    exact List.suffix_cons _ _
  | exec i c =>
    simp only [System.exec] at h
    split at h
    · obtain ⟨⟨r, w, T'⟩, hop, rfl⟩ := Option.map_eq_some_iff.mp h
      obtain ⟨new, hlog, -⟩ := exec_logged hop
      exact ⟨new, hlog.symm⟩
    · cases h
  | finish i =>
    simp only [System.exec] at h
    split at h <;> cases h
    exact List.suffix_cons _ _
  | crash i =>
    obtain ⟨x, -, rfl⟩ := Option.map_eq_some_iff.mp h
    exact List.suffix_refl _
  | tick d =>
    cases h
    exact List.suffix_refl _

/-- The store has been the committed one at some point of the history. -/
def Recorded (s₀ : Store V) (log : List (Entry V Y E M R L)) (b : Store V) : Prop :=
  ∃ older, older <:+ log ∧ Chained s₀ older b

/-- A log that has grown still tells from which committed store a session began. -/
theorem Recorded.mono {s₀ b : Store V} {log log' : List (Entry V Y E M R L)} (h : Recorded s₀ log b)
    (hlog : log <:+ log') : Recorded s₀ log' b := by
  obtain ⟨older, holder, hchain⟩ := h
  exact ⟨older, holder.trans hlog, hchain⟩

/-- What all later commits keep holds of the last store if it holds of a recorded one. -/
theorem Recorded.invariant {s₀ b s : Store V} {log : List (Entry V Y E M R L)} (h : Recorded s₀ log b)
    (hs : Chained s₀ log s) {I : Store V → Prop} (hb : I b)
    (hstep : ∀ e ∈ log, ∀ t b, e.event.commit? = some (t, b) → I b → I (patch t.writes b)) : I s := by
  obtain ⟨older, ⟨newer, rfl⟩, hchain⟩ := h
  obtain ⟨m, hm, hnewer⟩ := hs.split
  obtain rfl := hchain.unique hm
  exact hnewer.invariant hb fun e he => hstep e (List.mem_append_left _ he)

/-- Sessions start, and answers are given to sessions that started, on stores of the history. -/
theorem System.Reachable.born {s₀ : Store V} {clock : Time} {s : State V Y E M R L}
    (hs : sys.Reachable (.initial s₀ clock) s)
    (hchain : ∀ s, sys.Reachable (.initial s₀ clock) s → Chained s₀ s.world.log s.world.committed) :
    (∀ i x, s.session i = some x → Recorded s₀ s.world.log x.born) ∧
      ∀ e ∈ s.world.log, ∀ born r, e.event = .answer born r → Recorded s₀ s.world.log born := by
  induction hs with
  | refl => exact ⟨fun i x hx => by simp [State.session, State.initial] at hx, fun _ he => by cases he⟩
  | @step s s' hs hstep ih =>
    obtain ⟨hlive, hended⟩ := ih
    obtain ⟨a, hexec⟩ := hstep
    -- the log only grows, so what is recorded stays recorded
    have hlog := System.exec_log hexec
    have hlive' := fun i x hx => (hlive i x hx).mono hlog
    have hended' := fun e he born r hans => (hended e he born r hans).mono hlog
    cases a with
    -- the store a session starts on is the newest of the history
    | start l =>
      simp only [System.exec] at hexec
      split at hexec <;> cases hexec
      refine ⟨fun i x hx => ?_, fun e he born r hans => ?_⟩
      · obtain ⟨-, hx⟩ | ⟨-, rfl⟩ := s.session_append_cases hx
        · exact hlive' i x hx
        · exact ⟨s.world.log, hlog, hchain s hs⟩
      · rcases List.mem_cons.mp he with rfl | he
        · cases hans
        · exact hended' e he born r hans
    | exec i c =>
      simp only [System.exec] at hexec
      split at hexec
      case h_2 => cases hexec
      case h_1 l born β o next T hx =>
      obtain ⟨⟨r, w, T'⟩, hop, rfl⟩ := Option.map_eq_some_iff.mp hexec
      obtain ⟨new, hnew, -, -, hquiet⟩ := exec_logged hop
      refine ⟨fun j y hy => ?_, fun e he born' r' hans => ?_⟩
      · by_cases hij : i = j
        · subst hij
          rw [State.session_update_self s (s.lt_length_of_session hx)] at hy
          obtain rfl := Option.some.inj hy
          exact hlive' i ⟨l, born, .op o next, T⟩ hx
        · exact hlive' j y ((s.session_update_ne hij _ _).symm.trans hy)
      · rcases List.mem_append.mp (hnew ▸ he : e ∈ new ++ s.world.log) with he | he
        · exact (hquiet e he born' r' hans).elim
        · exact hended' e he born' r' hans
    | finish i =>
      simp only [System.exec] at hexec
      split at hexec
      case h_2 => cases hexec
      case h_1 l born r T hx =>
      cases hexec
      refine ⟨fun j y hy => ?_, fun e he born' r' hans => ?_⟩
      · by_cases hij : i = j
        · subst hij
          rw [State.session_update_self s (s.lt_length_of_session hx)] at hy
          cases hy
        · exact hlive' j y ((s.session_update_ne hij _ _).symm.trans hy)
      · rcases List.mem_cons.mp he with rfl | he
        · cases hans
          exact hlive' i _ hx
        · exact hended' e he born' r' hans
    | crash i =>
      obtain ⟨x, hx, rfl⟩ := Option.map_eq_some_iff.mp hexec
      refine ⟨fun j y hy => ?_, hended'⟩
      by_cases hij : i = j
      · subst hij
        rw [State.session_update_self s (s.lt_length_of_session hx)] at hy
        cases hy
      · exact hlive' j y ((s.session_update_ne hij _ _).symm.trans hy)
    | tick d =>
      cases hexec
      exact ⟨hlive', hended'⟩

/-- Session `i` has left the mark `m`, at some point of the log. -/
def Emitted (log : List (Entry V Y E M R L)) (i : ℕ) (m : M) : Prop :=
  ∃ e ∈ log, e.session = i ∧ e.event = .emit m

omit [DecidableEq K] in
/-- A mark has been emitted if the newest entry is that mark or an older one was. -/
theorem emitted_cons {log : List (Entry V Y E M R L)} {e : Entry V Y E M R L} {i : ℕ} {m : M} :
    Emitted (e :: log) i m ↔ (e.session = i ∧ e.event = .emit m) ∨ Emitted log i m := by
  simp only [Emitted, List.mem_cons, or_and_right, exists_or, exists_eq_left]

omit [DecidableEq K] in
/-- An entry that is no mark changes nothing in what has been emitted. -/
theorem emitted_push {log : List (Entry V Y E M R L)} {e : Entry V Y E M R L} {i : ℕ} {m : M}
    (he : ∀ m, e.event ≠ .emit m) : Emitted (e :: log) i m ↔ Emitted log i m :=
  emitted_cons.trans (or_iff_right fun h => he m h.2)

/-- An operation leaves the mark in the log that it leaves in the trace. -/
theorem exec_emitted {i : ℕ} {l : L} {locked : K → Bool} {c : Choice Y E} {o : Op V Y E M β}
    {w w' : World V Y E M R L} {T T' : Option (Txn V)} {r : Except E β}
    (h : o.exec i l locked c w T = some (r, w', T')) (m : M) :
    Emitted w'.log i m ↔ Emitted w.log i m ∨ m ∈ emits [(⟨o, r⟩ : Exchange V Y E M)] := by
  have hquiet : (Emitted w'.log i m ↔ Emitted w.log i m) →
      emits [(⟨o, r⟩ : Exchange V Y E M)] = [] →
      (Emitted w'.log i m ↔ Emitted w.log i m ∨ m ∈ emits [(⟨o, r⟩ : Exchange V Y E M)]) := by
    intro hsame hnone
    rw [hsame, hnone, or_iff_left List.not_mem_nil]
  have hcommit : w' = T.elim w (w.commit i l) → (Emitted w'.log i m ↔ Emitted w.log i m) := by
    rintro rfl
    cases T with
    | none => rfl
    | some t =>
      simp only [Option.elim, World.commit]
      split
      · rfl
      · exact emitted_push fun _ h => by cases h
  cases o with
  | call x =>
    cases c <;> simp only [Op.exec, Option.some.injEq, Prod.mk.injEq, reduceCtorEq] at h
    obtain ⟨-, rfl, -⟩ := h
    exact hquiet (emitted_push fun _ h => by cases h) rfl
  | commit =>
    cases c <;> simp only [Op.exec, Option.some.injEq, Prod.mk.injEq, reduceCtorEq] at h
    · exact hquiet (hcommit h.2.1.symm) rfl
    · exact hquiet (h.2.1 ▸ Iff.rfl) rfl
    · exact hquiet (hcommit h.2.1.symm) rfl
  | rollback =>
    cases c <;> simp only [Op.exec, Option.some.injEq, Prod.mk.injEq, reduceCtorEq] at h <;>
      exact hquiet (h.2.1 ▸ Iff.rfl) rfl
  | inTransaction =>
    simp only [Op.exec, Option.some.injEq, Prod.mk.injEq] at h
    exact hquiet (h.2.1 ▸ Iff.rfl) rfl
  | emit m' =>
    simp only [Op.exec, Option.some.injEq, Prod.mk.injEq] at h
    obtain ⟨-, rfl, -⟩ := h
    rw [World.push, emitted_cons, or_comm]
    simp only [Event.emit.injEq, true_and, emits, Exchange.emit?, List.filterMap_cons,
      List.filterMap_nil, List.mem_singleton]
    rw [eq_comm]
  | _ => exact hquiet ((statement_cases h).1 ▸ Iff.rfl) rfl

/-- In every run, the marks of a session in the log are those in its trace. -/
theorem System.Traced.emitted {s₀ s : State V Y E M R L} {ρ : ℕ → Trace V Y E M}
    (h : sys.Traced s₀ s ρ) (h₀ : s₀.world.log = []) (i : ℕ) (m : M) :
    m ∈ emits (ρ i) ↔ Emitted s.world.log i m := by
  induction h with
  | refl =>
    rw [h₀]
    exact ⟨fun h => absurd h List.not_mem_nil, fun ⟨_, h, _⟩ => absurd h List.not_mem_nil⟩
  | @other s s' ρ a _ ha hexec ih =>
    rw [ih]
    cases a with
    | start l =>
      simp only [System.exec] at hexec
      split at hexec <;> cases hexec
      exact (emitted_push fun _ h => by cases h).symm
    | exec i c => exact absurd rfl (ha i c)
    | finish j =>
      simp only [System.exec] at hexec
      split at hexec <;> cases hexec
      exact (emitted_push fun _ h => by cases h).symm
    | crash j =>
      obtain ⟨x, -, rfl⟩ := Option.map_eq_some_iff.mp hexec
      exact Iff.rfl
    | tick d =>
      cases hexec
      exact Iff.rfl
  | @exec s ρ j l born β o next T T' c r w _ hx hop ih =>
    show _ ↔ Emitted w.log i m
    by_cases hij : i = j
    · subst hij
      rw [Function.update_self, emits_append, List.mem_append, ih, exec_emitted hop m]
    · obtain ⟨new, hlog, hnew, -⟩ := exec_logged hop
      rw [Function.update_of_ne hij, ih, hlog]
      simp only [Emitted, List.mem_append, or_and_right, exists_or]
      refine (or_iff_right ?_).symm
      rintro ⟨e, he, hi, -⟩
      exact hij (hi.symm.trans (hnew e he))

/-- An operation adds entries of its own session only. -/
theorem exec_entry {i : ℕ} {l : L} {locked : K → Bool} {c : Choice Y E} {o : Op V Y E M β}
    {w w' : World V Y E M R L} {T T' : Option (Txn V)} {r : Except E β}
    (h : o.exec i l locked c w T = some (r, w', T')) {e : Entry V Y E M R L} (he : e ∈ w'.log) :
    e ∈ w.log ∨ (e.session = i ∧ e.actor = l) := by
  have hsame : w' = w → e ∈ w.log ∨ (e.session = i ∧ e.actor = l) := fun h => .inl (h ▸ he)
  have hpush : ∀ ev, w' = w.push i l ev → e ∈ w.log ∨ (e.session = i ∧ e.actor = l) := by
    rintro ev rfl
    obtain rfl | he := List.mem_cons.mp he
    · exact .inr ⟨rfl, rfl⟩
    · exact .inl he
  have hcommit : w' = T.elim w (w.commit i l) → e ∈ w.log ∨ (e.session = i ∧ e.actor = l) := by
    rintro rfl
    cases T with
    | none => exact .inl he
    | some t =>
      simp only [Option.elim, World.commit] at he
      split at he
      · exact .inl he
      · obtain rfl | he := List.mem_cons.mp he
        · exact .inr ⟨rfl, rfl⟩
        · exact .inl he
  cases o with
  | call x =>
    cases c <;> simp only [Op.exec, Option.some.injEq, Prod.mk.injEq, reduceCtorEq] at h
    exact hpush _ h.2.1.symm
  | commit =>
    cases c <;> simp only [Op.exec, Option.some.injEq, Prod.mk.injEq, reduceCtorEq] at h
    · exact hcommit h.2.1.symm
    · exact hsame h.2.1.symm
    · exact hcommit h.2.1.symm
  | rollback =>
    cases c <;> simp only [Op.exec, Option.some.injEq, Prod.mk.injEq, reduceCtorEq] at h <;>
      exact hsame h.2.1.symm
  | inTransaction =>
    simp only [Op.exec, Option.some.injEq, Prod.mk.injEq] at h
    exact hsame h.2.1.symm
  | emit m =>
    simp only [Op.exec, Option.some.injEq, Prod.mk.injEq] at h
    exact hpush _ h.2.1.symm
  | _ => exact hsame (statement_cases h).1

/-- Every session has one actor, in all of its entries. -/
theorem System.Reachable.actors {s₀ : Store V} {clock : Time} {s : State V Y E M R L}
    (h : sys.Reachable (.initial s₀ clock) s) : ∃ actor : ℕ → Option L,
      (∀ e ∈ s.world.log, e.session < s.sessions.length ∧ actor e.session = some e.actor) ∧
        ∀ i x, s.session i = some x → actor i = some x.actor := by
  induction h with
  | refl =>
    exact ⟨fun _ => none, fun e he => absurd he List.not_mem_nil,
      fun i x hx => by simp [State.session, State.initial] at hx⟩
  | @step s s' _ hstep ih =>
    obtain ⟨actor, hlog, hlive⟩ := ih
    obtain ⟨a, hexec⟩ := hstep
    -- a step of a running session adds entries of its own, and leaves the others running
    have hupdate : ∀ {i : ℕ} {x : Session V Y E M R L} {w : World V Y E M R L}
        {x' : Option (Session V Y E M R L)}, s.session i = some x →
        (∀ e ∈ w.log, e ∈ s.world.log ∨ (e.session = i ∧ e.actor = x.actor)) →
        (∀ y, x' = some y → y.actor = x.actor) → ∃ actor : ℕ → Option L,
        (∀ e ∈ (s.update i w x').world.log,
          e.session < (s.update i w x').sessions.length ∧ actor e.session = some e.actor) ∧
          ∀ j y, (s.update i w x').session j = some y → actor j = some y.actor := by
      intro i x w x' hx hw hx'
      have hi := s.lt_length_of_session hx
      refine ⟨actor, fun e he => ?_, fun j y hy => ?_⟩
      · rw [show (s.update i w x').sessions.length = s.sessions.length from List.length_set]
        obtain he | ⟨rfl, ha⟩ := hw e he
        · exact hlog e he
        · exact ⟨hi, (hlive _ x hx).trans (congrArg some ha.symm)⟩
      · by_cases hij : i = j
        · subst hij
          rw [State.session_update_self s hi] at hy
          rw [hlive i x hx, hx' y hy]
        · rw [State.session_update_ne s hij] at hy
          exact hlive j y hy
    cases a with
    | start l =>
      simp only [System.exec] at hexec
      split at hexec <;> cases hexec
      -- the new session takes a number that no entry of the log carries
      have hold : ∀ {i}, i < s.sessions.length →
          Function.update actor s.sessions.length (some l) i = actor i :=
        fun hi => Function.update_of_ne (Nat.ne_of_lt hi) _ _
      refine ⟨Function.update actor s.sessions.length (some l), fun e he => ?_, fun i x hx => ?_⟩
      · simp only [List.length_append, List.length_singleton]
        obtain rfl | he := List.mem_cons.mp he
        · exact ⟨Nat.lt_succ_self _, Function.update_self ..⟩
        · obtain ⟨hlt, ha⟩ := hlog e he
          exact ⟨Nat.lt_succ_of_lt hlt, (hold hlt).trans ha⟩
      · obtain ⟨hi, hx⟩ | ⟨rfl, rfl⟩ := s.session_append_cases hx
        · exact (hold hi).trans (hlive i x hx)
        · exact Function.update_self ..
    | exec i c =>
      simp only [System.exec] at hexec
      split at hexec
      · next hx =>
        obtain ⟨⟨r, w, T'⟩, hop, rfl⟩ := Option.map_eq_some_iff.mp hexec
        exact hupdate hx (fun _ he => exec_entry hop he) fun y hy => by cases hy; rfl
      · cases hexec
    | finish i =>
      simp only [System.exec] at hexec
      split at hexec
      · next hx =>
        cases hexec
        refine hupdate hx (fun e he => ?_) fun y hy => by cases hy
        obtain rfl | he := List.mem_cons.mp he
        · exact .inr ⟨rfl, rfl⟩
        · exact .inl he
      · cases hexec
    | crash i =>
      obtain ⟨x, hx, rfl⟩ := Option.map_eq_some_iff.mp hexec
      exact hupdate hx (fun _ he => .inl he) fun y hy => by cases hy
    | tick d =>
      cases hexec
      exact ⟨actor, hlog, hlive⟩

/-- Two entries of a session have one actor. -/
theorem System.Reachable.same_actor {s₀ : Store V} {clock : Time} {s : State V Y E M R L}
    (h : sys.Reachable (.initial s₀ clock) s) {e e' : Entry V Y E M R L} (he : e ∈ s.world.log)
    (he' : e' ∈ s.world.log) (hsession : e.session = e'.session) : e.actor = e'.actor := by
  obtain ⟨actor, hlog, -⟩ := h.actors
  have ha := (hlog e he).2
  rw [hsession, (hlog e' he').2] at ha
  exact (Option.some.inj ha).symm

/-- What the traces of a run tell about the programs of its sessions. -/
structure Executed (sys : System V Y E M R L) (S : Spec V Y E M R L) (s : State V Y E M R L)
    (ρ : ℕ → Trace V Y E M) : Prop where
  /-- Executing the rest of a running session's program completes an execution of the program. -/
  live : ∀ i x, s.session i = some x → ∃ w₀, S.facts w₀ ∧ ∀ τ r w₁ T₁,
    x.prog.Executes S i x.actor s.world x.txn τ r w₁ T₁ → ∃ w₂,
      (sys.program x.actor).Executes S i x.actor w₀ none (ρ i ++ τ) r w₂ T₁ ∧ w₂.log <:+ w₁.log
  /-- A session that has answered has executed its program. -/
  ended : ∀ e ∈ s.world.log, ∀ born r, e.event = .answer born r →
    s.session e.session = none ∧ ∃ w₀ w₁ T₁, S.facts w₀ ∧
      (sys.program e.actor).Executes S e.session e.actor w₀ none (ρ e.session) r w₁ T₁ ∧
      w₁.log <:+ s.world.log
  logged : ∀ i, Logged s.world.log i (ρ i)
  started : ∀ e ∈ s.world.log, e.session < s.sessions.length
  fresh : ∀ i, s.sessions.length ≤ i → ρ i = []

namespace Executed

variable {S : Spec V Y E M R L} {s s' : State V Y E M R L} {ρ : ℕ → Trace V Y E M}

/-- A step of one session does not matter to the executions of the others. -/
theorem others (h : Executed sys S s ρ) (hS : S.Lawful sys) (hs : S.Good sys s)
    (hknown : S.known s.world) (hknown' : S.known s'.world) {a : Action Y E L}
    (hexec : sys.exec a s = some s') {i : ℕ} {x : Session V Y E M R L} (hx : s.session i = some x)
    (ha : ∀ c, a ≠ .exec i c) (hfinish : a ≠ .finish i) : ∃ w₀, S.facts w₀ ∧ ∀ τ r w₁ T₁,
      x.prog.Executes S i x.actor s'.world x.txn τ r w₁ T₁ → ∃ w₂,
        (sys.program x.actor).Executes S i x.actor w₀ none (ρ i ++ τ) r w₂ T₁ ∧
        w₂.log <:+ w₁.log := by
  obtain ⟨w₀, hw₀, hrun⟩ := h.live i x hx
  refine ⟨w₀, hw₀, fun τ r w₁ T₁ hex => ?_⟩
  obtain ⟨w₂, hex₂, hlog₂⟩ := hex.env hS (hs.env_step hS hknown hexec hknown' hx ha hfinish)
    (System.exec_log hexec)
  obtain ⟨w₃, hex₃, hlog₃⟩ := hrun τ r w₂ T₁ hex₂
  exact ⟨w₃, hex₃, hlog₃.trans hlog₂⟩

/-- What has ended, has ended. -/
theorem ended_step (h : Executed sys S s ρ) {a : Action Y E L} (hexec : sys.exec a s = some s')
    {e : Entry V Y E M R L} (he : e ∈ s.world.log) {born : Store V} {r : Except E R}
    (hans : e.event = .answer born r) : s'.session e.session = none ∧ ∃ w₀ w₁ T₁, S.facts w₀ ∧
      (sys.program e.actor).Executes S e.session e.actor w₀ none (ρ e.session) r w₁ T₁ ∧
      w₁.log <:+ s'.world.log := by
  obtain ⟨hnone, w₀, w₁, T₁, hw₀, hex, hlog⟩ := h.ended e he born r hans
  have hlen := h.started e he
  refine ⟨?_, w₀, w₁, T₁, hw₀, hex, hlog.trans (System.exec_log hexec)⟩
  have hother : ∀ {i x}, s.session i = some x → i ≠ e.session := fun hx heq => by
    cases (heq ▸ hx).symm.trans hnone
  cases a with
  | start l =>
    simp only [System.exec] at hexec
    split at hexec <;> cases hexec
    exact (s.session_append_lt hlen _ _).trans hnone
  | exec i c =>
    simp only [System.exec] at hexec
    split at hexec
    · next hx =>
      obtain ⟨p, -, rfl⟩ := Option.map_eq_some_iff.mp hexec
      exact (s.session_update_ne (hother hx) _ _).trans hnone
    · cases hexec
  | finish i =>
    simp only [System.exec] at hexec
    split at hexec
    · next hx =>
      cases hexec
      exact (s.session_update_ne (hother hx) _ _).trans hnone
    · cases hexec
  | crash i =>
    obtain ⟨x, hx, rfl⟩ := Option.map_eq_some_iff.mp hexec
    exact (s.session_update_ne (hother hx) _ _).trans hnone
  | tick d =>
    cases hexec
    exact hnone

/-- A session that starts has the empty trace, which its program runs to where it stands. -/
theorem start (h : Executed sys S s ρ) (hS : S.Lawful sys) (hs : S.Good sys s)
    (hknown : S.known s.world) (hknown' : S.known s'.world) {l : L}
    (hexec : sys.exec (.start l) s = some s') : Executed sys S s' ρ := by
  have hothers := fun {i x} (hx : s.session i = some x) => h.others hS hs hknown hknown' hexec hx
    (fun _ h => by cases h) fun h => by cases h
  have hended := fun e (he : e ∈ s.world.log) born r (hans : e.event = .answer born r) =>
    h.ended_step hexec he hans
  simp only [System.exec] at hexec
  split at hexec <;> cases hexec
  refine ⟨fun i x hx => ?_, fun e he born r hans => ?_, fun i => ?_, fun e he => ?_, fun i hi => ?_⟩
  · obtain ⟨-, hx⟩ | ⟨rfl, rfl⟩ := s.session_append_cases hx
    · exact hothers hx
    · refine ⟨_, ⟨(hS.begun _ l _ hs.inv).2, hknown'⟩, fun τ r w₁ T₁ hex => ⟨w₁, ?_, List.suffix_refl _⟩⟩
      rw [h.fresh _ (le_refl _)]
      exact hex
  · rcases List.mem_cons.mp he with rfl | he
    · cases hans
    · exact hended e he _ _ hans
  · exact (h.logged i).push_quiet fun _ _ hc => (by cases hc)
  · simp only [List.length_append, List.length_singleton]
    rcases List.mem_cons.mp he with rfl | he
    · exact Nat.lt_succ_self _
    · exact Nat.lt_succ_of_lt (h.started e he)
  · simp only [List.length_append, List.length_singleton] at hi
    exact h.fresh i (Nat.le_of_succ_le hi)

/-- The step that carries the induction: an operation adds its exchange to the trace of its own session, and
the others only see their environment move. -/
theorem exec (h : Executed sys S s ρ) (hS : S.Lawful sys) (hs : S.Good sys s)
    (hknown : S.known s.world) {i : ℕ} {l : L} {born : Store V} {β : Type} {o : Op V Y E M β}
    {next : Except E β → Prog V Y E M (Except E R)} {T T' : Option (Txn V)} {c : Choice Y E}
    {r : Except E β} {w : World V Y E M R L} (hknown' : S.known w)
    (hx : s.session i = some ⟨l, born, .op o next, T⟩)
    (hop : o.exec i l (s.locked i) c s.world T = some (r, w, T')) :
    Executed sys S (s.update i w (some ⟨l, born, next r, T'⟩))
      (Function.update ρ i (ρ i ++ [⟨o, r⟩])) := by
  have hi := s.lt_length_of_session hx
  have hexec : sys.exec (.exec i c) s = some (s.update i w (some ⟨l, born, next r, T'⟩)) :=
    System.exec_op hx hop
  obtain ⟨new, hlog, hnew, hlogged, hquiet⟩ := exec_logged hop
  refine ⟨fun j y hy => ?_, fun e he born' r' hans => ?_, fun j => ?_, fun e he => ?_, fun j hj => ?_⟩
  -- the session itself has one exchange more, and goes on from there
  · by_cases hij : i = j
    · subst hij
      rw [State.session_update_self s hi] at hy
      cases hy
      obtain ⟨w₀, hw₀, hrun⟩ := h.live i _ hx
      refine ⟨w₀, hw₀, fun τ r' w₁ T₁ hex => ?_⟩
      rw [Function.update_self, List.append_assoc]
      exact hrun _ r' w₁ T₁ (.op (.refl hS ⟨hs.inv, hknown⟩) (hs.turn hS hknown hx hop hknown').1 hop
        hknown' hex)
    · rw [State.session_update_ne s hij] at hy
      rw [Function.update_of_ne (Ne.symm hij)]
      exact h.others hS hs hknown hknown' hexec hy (fun _ h => hij (by cases h; rfl))
        fun h => by cases h
  -- nobody ends with this step
  · rcases List.mem_append.mp (hlog ▸ he : e ∈ new ++ s.world.log) with he | he
    · exact (hquiet e he born' r' hans).elim
    · have hij : e.session ≠ i := fun heq => by
        cases (heq ▸ hx).symm.trans (h.ended e he born' r' hans).1
      rw [Function.update_of_ne hij]
      exact h.ended_step hexec he hans
  -- the new entries of the log belong to the new exchange
  · change Logged w.log j _
    rw [hlog]
    by_cases hij : i = j
    · subst hij
      rw [Function.update_self]
      exact (h.logged i).append hlogged
    · rw [Function.update_of_ne (Ne.symm hij)]
      exact (h.logged j).other fun e he heq => hij ((hnew e he).symm.trans heq)
  · simp only [State.update, List.length_set]
    rcases List.mem_append.mp (hlog ▸ he : e ∈ new ++ s.world.log) with he | he
    · exact hnew e he ▸ hi
    · exact h.started e he
  · simp only [State.update, List.length_set] at hj
    have hij : j ≠ i := fun heq => absurd hi (heq ▸ not_lt.mpr hj)
    rw [Function.update_of_ne hij]
    exact h.fresh j hj

/-- A session that ends takes its trace with it, and the others are not affected. -/
theorem finish (h : Executed sys S s ρ) (hS : S.Lawful sys) (hs : S.Good sys s)
    (hknown : S.known s.world) (hknown' : S.known s'.world) {i : ℕ}
    (hexec : sys.exec (.finish i) s = some s') : Executed sys S s' ρ := by
  have hothers := fun {j x} (hij : i ≠ j) (hx : s.session j = some x) =>
    h.others hS hs hknown hknown' hexec hx (fun _ h => by cases h) fun h => hij (by cases h; rfl)
  have hended := fun e (he : e ∈ s.world.log) born r (hans : e.event = .answer born r) =>
    h.ended_step hexec he hans
  simp only [System.exec] at hexec
  split at hexec
  case h_2 => cases hexec
  case h_1 l born r T hx =>
  cases hexec
  have hi := s.lt_length_of_session hx
  refine ⟨fun j y hy => ?_, fun e he born' r' hans => ?_, fun j => ?_, fun e he => ?_, fun j hj => ?_⟩
  · by_cases hij : i = j
    · subst hij
      rw [State.session_update_self s hi] at hy
      cases hy
    · rw [State.session_update_ne s hij] at hy
      exact hothers hij hy
  · rcases List.mem_cons.mp he with rfl | he
    · cases hans
      obtain ⟨w₀, hw₀, hrun⟩ := h.live i _ hx
      obtain ⟨w₂, hex, hlog⟩ := hrun [] r _ T (.ret r _ T)
      exact ⟨State.session_update_self s hi _ _, w₀, w₂, T, hw₀, List.append_nil (ρ i) ▸ hex,
        hlog.trans (List.suffix_cons _ _)⟩
    · exact hended e he _ _ hans
  · exact (h.logged j).push_quiet fun _ _ hc => (by cases hc)
  · simp only [State.update, List.length_set]
    rcases List.mem_cons.mp he with rfl | he
    · exact hi
    · exact h.started e he
  · simp only [State.update, List.length_set] at hj
    exact h.fresh j hj

/-- A crash drops a session together with its open transaction, and what the others assume is kept. -/
theorem crash (h : Executed sys S s ρ) (hS : S.Lawful sys) (hs : S.Good sys s)
    (hknown : S.known s.world) (hknown' : S.known s'.world) {i : ℕ}
    (hexec : sys.exec (.crash i) s = some s') : Executed sys S s' ρ := by
  have hothers := fun {j x} (hx : s.session j = some x) =>
    h.others hS hs hknown hknown' hexec hx (fun _ h => by cases h) fun h => by cases h
  have hended := fun e (he : e ∈ s.world.log) born r (hans : e.event = .answer born r) =>
    h.ended_step hexec he hans
  obtain ⟨x, hx, rfl⟩ := Option.map_eq_some_iff.mp hexec
  have hi := s.lt_length_of_session hx
  refine ⟨fun j y hy => ?_, hended, h.logged, fun e he => ?_,
    fun j hj => ?_⟩
  · by_cases hij : i = j
    · subst hij
      rw [State.session_update_self s hi] at hy
      cases hy
    · rw [State.session_update_ne s hij] at hy
      exact hothers hy
  · simp only [State.update, List.length_set]
    exact h.started e he
  · simp only [State.update, List.length_set] at hj
    exact h.fresh j hj

/-- Only the clock has moved, which every assertion allows. -/
theorem tick (h : Executed sys S s ρ) (hS : S.Lawful sys) (hs : S.Good sys s)
    (hknown : S.known s.world) (hknown' : S.known s'.world) {d : ℕ}
    (hexec : sys.exec (.tick d) s = some s') : Executed sys S s' ρ := by
  have hothers := fun {j x} (hx : s.session j = some x) =>
    h.others hS hs hknown hknown' hexec hx (fun _ h => by cases h) fun h => by cases h
  cases hexec
  exact ⟨fun i x hx => hothers hx, h.ended, h.logged, h.started, h.fresh⟩

end Executed

/-- Executions of a session whose surroundings keep the log only add to the log. -/
theorem Prog.Executes.log {S : Spec V Y E M R L} {i : ℕ} {l : L}
    (hS : ∀ w w', S.rely i l w w' → w.log <:+ w'.log) {p : Prog V Y E M α}
    {w w₁ : World V Y E M R L} {T T₁ : Option (Txn V)} {τ : Trace V Y E M} {a : α}
    (h : p.Executes S i l w T τ a w₁ T₁) : w.log <:+ w₁.log := by
  induction h with
  | ret a w T => exact List.suffix_refl _
  | op henv _ hexec _ _ ih =>
    obtain ⟨new, hlog, -⟩ := exec_logged hexec
    have hop : _ <:+ _ := ⟨new, hlog.symm⟩
    exact (hS _ _ henv.rely).trans (hop.trans ih)

/-- Every run of a system that meets its specification executes the programs. -/
theorem Spec.executed {S : Spec V Y E M R L} (hS : S.Lawful sys) {s₀ : Store V} {clock : Time}
    (hgood : ∀ s, sys.Reachable (.initial s₀ clock) s → S.Good sys s ∧ S.known s.world)
    {s : State V Y E M R L} {ρ : ℕ → Trace V Y E M} (h : sys.Traced (.initial s₀ clock) s ρ) :
    Executed sys S s ρ := by
  induction h with
  | refl =>
    refine ⟨fun i x hx => (by simp [State.session, State.initial] at hx),
      fun e he => (List.not_mem_nil he).elim, fun i x y => ?_,
      fun e he => (List.not_mem_nil he).elim, fun _ _ => rfl⟩
    exact ⟨fun hx => (List.not_mem_nil hx).elim, fun hc => hc.elim fun _ h => (List.not_mem_nil h.1).elim⟩
  | @other s s' ρ a htr ha hexec ih =>
    obtain ⟨hs, hknown⟩ := hgood s htr.reachable
    have hknown' := (hgood s' (.step htr.reachable ⟨a, hexec⟩)).2
    cases a with
    | start l => exact ih.start hS hs hknown hknown' hexec
    | exec i c => exact absurd rfl (ha i c)
    | finish i => exact ih.finish hS hs hknown hknown' hexec
    | crash i => exact ih.crash hS hs hknown hknown' hexec
    | tick d => exact ih.tick hS hs hknown hknown' hexec
  | exec htr hx hop ih =>
    obtain ⟨hs, hknown⟩ := hgood _ htr.reachable
    exact ih.exec hS hs hknown (hgood _ (.step htr.reachable ⟨_, System.exec_op hx hop⟩)).2 hx hop

end Sessions

end ReadCommitted
