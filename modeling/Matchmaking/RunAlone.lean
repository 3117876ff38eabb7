import Matchmaking.Refinement
import Matchmaking.ReadCommitted.Alone

/-!
# Statements run alone

Rules of total correctness for statements and transactions, for the case that no other session runs
and nothing fails.
-/

namespace Matchmaking

open ReadCommitted

variable {answer : ℕ → (c : Call) → Reply c} {i : ℕ} {l : Actor} {w : ServiceWorld}
  {T : Option (Txn Row)} {α : Type}

/-- An attempt returns what its body ends with. -/
theorem attempt_gives {x : Db α} {Q : Except Exn α → ServiceWorld → Option (Txn Row) → Prop}
    (h : Client.Ends answer i l x Q w T) : Client.Gives answer i l (attempt x) Q w T := by
  obtain ⟨r, w', T', hx, hq⟩ := h
  refine ⟨r, w', T', ?_, hq⟩
  have hrun := attempt_run x Prog.ret
  rw [Prog.bind_ret] at hrun
  rw [hrun, Prog.alone_bind, hx]
  rfl

/-- A block in a transaction, or a transaction of its own, ends with what its body has written. -/
theorem transaction_gives {x : Db α} {now : Time} {s : Tables}
    {Q : α → ServiceWorld → Option (Txn Row) → Prop} (h : SeesAt now s w T)
    (hx : ∀ T₁, SeesAt now s w T₁ → Client.Gives answer i l x (fun a w₂ T₂ => ∃ s₂, SeesAt now s₂ w₂ T₂ ∧
      ∀ w₃ T₃, SeesAt now s₂ w₃ T₃ → w₂.log.length ≤ w₃.log.length → w₃.log.length ≤ w₂.log.length + 1 →
        Q a w₃ T₃) w T₁) :
    Client.Gives answer i l (transaction x) Q w T := by
  refine .bind (.inTransaction ?_)
  cases T with
  | some t =>
    refine .bind (.savepoint h fun T₁ h₁ => .bind (attempt_gives (.of_gives ((hx T₁ h₁).mono ?_))))
    rintro a w₂ T₂ ⟨s₂, h₂, hq⟩
    exact .bind (.releaseSavepoint h₂ fun T₃ h₃ => .pure (hq w₂ T₃ h₃ (Nat.le_refl _) (Nat.le_succ _)))
  | none =>
    have hs : w.committed = s := h.view
    have hnow : w.clock = now := h.start
    subst hs hnow
    refine .bind (.start fun T₁ h₁ => .bind (attempt_gives (.of_gives ((hx T₁ h₁).timed.mono ?_))))
    rintro a w₂ T₂ ⟨⟨s₂, h₂, hq⟩, hclock, -⟩
    refine .bind (.commit_logged h₂.toSees fun w₃ hs₃ hclock₃ hlog hlog' => .pure ?_)
    exact hq w₃ none ⟨⟨rfl, hs₃⟩, hclock₃.trans hclock⟩ hlog hlog'

/-- A single statement commits what it has written. -/
theorem onConnection_gives {x : Db α} {Q : α → ServiceWorld → Option (Txn Row) → Prop}
    (h : ∀ T₁, SeesAt w.clock w.committed w T₁ → Client.Gives answer i l x
      (fun a w₂ T₂ => ∃ s, Sees s w₂ T₂ ∧
        ∀ w₃, w₃.committed = s → w₃.clock = w₂.clock → Q a w₃ none) w T₁) :
    Client.Gives answer i l (onConnection x) Q w none := by
  refine .bind (.start fun T₁ hsees => .bind ?_)
  refine attempt_gives (.of_gives ((h T₁ hsees).mono fun a w₂ T₂ hx => ?_))
  obtain ⟨s, hs, hq⟩ := hx
  exact .bind (.commit hs fun w₃ hs₃ hclock => .pure (hq w₃ hs₃ hclock))

theorem autocommit_gives {x : Db α} {Q : α → ServiceWorld → Option (Txn Row) → Prop}
    (h : ∀ (w₁ : ServiceWorld) T₁, SeesAt w.clock w.committed w₁ T₁ → w₁.clock = w.clock →
      Client.Gives answer i l x (fun a w₂ T₂ => ∃ s, Sees s w₂ T₂ ∧
        ∀ w₃, w₃.committed = s → w₃.clock = w₂.clock → Q a w₃ none) w₁ T₁) :
    Client.Gives answer i l (autocommit x) Q w none :=
  .bind (.call_now (onConnection_gives fun T₁ hsees => h _ T₁ hsees rfl))

/-- A query of its own replies what is committed. -/
theorem onConnection_select_gives {f : Time → Tables → α}
    {Q : α → ServiceWorld → Option (Txn Row) → Prop}
    (hQ : ∀ w', w'.committed = w.committed → w'.clock = w.clock → Q (f w.clock w.committed) w' none) :
    Client.Gives answer i l (onConnection (perform (.select f))) Q w none :=
  onConnection_gives fun _ hsees => .select_at hsees fun _ hsees' =>
    ⟨w.committed, hsees'.toSees, hQ⟩

theorem autocommit_select_gives {f : Time → Tables → α}
    {Q : α → ServiceWorld → Option (Txn Row) → Prop}
    (hQ : ∀ w', w'.committed = w.committed → w'.clock = w.clock → Q (f w.clock w.committed) w' none) :
    Client.Gives answer i l (autocommit (perform (.select f))) Q w none :=
  .bind (.call_now (onConnection_select_gives hQ))

/-- The stored response of the key, if one is committed. -/
theorem checkIdempotencyKey_gives {key tenantId requestHash : String} :
    Client.Gives answer i l (checkIdempotencyKey key tenantId requestHash) (fun found w' T => T = none ∧
      w'.committed = w.committed ∧ found = (w.committed.lookup (.idempotencyKeys tenantId key)).map
        fun (row : IdempotencyKey) => (row.responseBody, decide (row.requestHash = requestHash))) w none := by
  refine autocommit_gives fun w₁ T₁ hsees _ => .bind (.select_at hsees fun T₂ hsees₂ => ?_)
  cases w.committed.lookup (.idempotencyKeys tenantId key) with
  | none => exact .pure ⟨_, hsees₂.toSees, fun w₃ hs _ => ⟨rfl, hs, rfl⟩⟩
  | some row => exact .pure ⟨_, hsees₂.toSees, fun w₃ hs _ => ⟨rfl, hs, rfl⟩⟩

/-- The endpoint is run for a tenant that is known. -/
theorem withTenant_gives {tenantId : String} {tenant : Tenant} {endpoint : String → Tenant → Db Response}
    {Q : Response → ServiceWorld → Option (Txn Row) → Prop}
    (htenant : w.committed.lookup (.tenants tenantId) = some tenant)
    (h : ∀ w', w'.committed = w.committed → w'.clock = w.clock →
      Client.Gives answer i l (endpoint tenantId tenant) Q w' none) :
    Client.Gives answer i l (withTenant (some tenantId) endpoint) Q w none := by
  refine .bind (autocommit_select_gives fun w' hs hclock => ?_)
  rw [htenant]
  exact h w' hs hclock

theorem withTenant_ends {tenantId : String} {tenant : Tenant} {endpoint : String → Tenant → Db Response}
    {Q : Except Exn Response → ServiceWorld → Option (Txn Row) → Prop}
    (htenant : w.committed.lookup (.tenants tenantId) = some tenant)
    (h : ∀ w', w'.committed = w.committed → w'.clock = w.clock →
      Client.Ends answer i l (endpoint tenantId tenant) Q w' none) :
    Client.Ends answer i l (withTenant (some tenantId) endpoint) Q w none := by
  refine .bind_gives (autocommit_select_gives fun w' hs hclock => ?_)
  rw [htenant]
  exact h w' hs hclock

end Matchmaking
