/-
# Outbox ids

The id of an outbox row is drawn when the row is inserted, inside a transaction that may still fail,
and `nextval` is never undone.  So the ids that the outbox and the open transactions hold are all
different, in every state (`distinct_run`): no two rows are ever committed under one id.
-/
import Enroll.Registrar
import Enroll.Tickets

namespace Enroll

open Txn (Discipline Label)
open Tickets (Distinct)

def idsOf (log : List Write) : List OutboxId := (eventsOf log).map AuditOutbox.id

/-- The ids in the outbox, and those that each open session has drawn. -/
def holders (sys : Sys) : Option Nat → List OutboxId
  | none => sys.world.db.auditOutbox.map AuditOutbox.id
  | some t => (sys.sessions t).elim [] fun ses => idsOf ses.log

/-- A statement draws the next id for the row that it inserts, or inserts none. -/
theorem ids_of_exec {s : Stmt} {x : Nat} {v w : World} {r : s.Res} {ws : List Write}
    (h : s.exec x v = some (.ok (r, ws))) :
    idsOf ws = [] ∧ s.effect w = w ∨
      idsOf ws = [v.seq + 1] ∧ s.effect w = { w with seq := w.seq + 1 } := by
  cases s with
  | auditOutboxCreate p =>
    obtain ⟨-, rfl⟩ := Prod.mk.inj (Except.ok.inj (Option.some.inj h))
    exact Or.inr ⟨rfl, rfl⟩
  | read q =>
    obtain ⟨-, rfl⟩ := Prod.mk.inj (Except.ok.inj (Option.some.inj h))
    exact Or.inl ⟨rfl, rfl⟩
  | sectionForUpdate id =>
    obtain ⟨-, rfl⟩ := Prod.mk.inj (Except.ok.inj (Option.some.inj h))
    exact Or.inl ⟨rfl, rfl⟩
  | notificationCreate d =>
    obtain ⟨-, rfl⟩ := Prod.mk.inj (Except.ok.inj (Option.some.inj h))
    exact Or.inl ⟨rfl, rfl⟩
  | enrollmentCreate d =>
    refine Or.inl ⟨?_, rfl⟩
    simp only [Stmt.exec] at h
    split at h
    · exact absurd h (by simp)
    split at h
    · exact absurd h (by simp)
    split at h
    · exact absurd h (by simp)
    obtain ⟨-, rfl⟩ := Prod.mk.inj (Except.ok.inj (Option.some.inj h))
    rfl
  | enrollmentUpdate id d =>
    refine Or.inl ⟨?_, rfl⟩
    simp only [Stmt.exec] at h
    split at h
    · exact absurd h (by simp)
    split at h
    · exact absurd h (by simp)
    obtain ⟨-, rfl⟩ := Prod.mk.inj (Except.ok.inj (Option.some.inj h))
    rfl
  | enrollmentUpdateMany id st d =>
    refine Or.inl ⟨?_, rfl⟩
    simp only [Stmt.exec] at h
    split at h
    · obtain ⟨-, rfl⟩ := Prod.mk.inj (Except.ok.inj (Option.some.inj h))
      rfl
    split at h
    · split at h
      · exact absurd h (by simp)
      obtain ⟨-, rfl⟩ := Prod.mk.inj (Except.ok.inj (Option.some.inj h))
      rfl
    · obtain ⟨-, rfl⟩ := Prod.mk.inj (Except.ok.inj (Option.some.inj h))
      rfl
  | sectionUpdate id d =>
    refine Or.inl ⟨?_, rfl⟩
    simp only [Stmt.exec] at h
    split at h
    · exact absurd h (by simp)
    split at h
    · obtain ⟨-, rfl⟩ := Prod.mk.inj (Except.ok.inj (Option.some.inj h))
      rfl
    · exact absurd h (by simp)

theorem effect_of_error {s : Stmt} {x : Nat} {v w : World} {e : Failure}
    (h : s.exec x v = some (.error e)) : s.effect w = w := by
  cases s with
  | auditOutboxCreate p => exact absurd h (by simp [Stmt.exec])
  | _ => rfl

/-- Session `t` goes on with the log `log`. -/
theorem holders_update {sys sys' : Sys} {t : Nat} {ses' : Txn.Session registrar}
    (hout : sys'.world.db.auditOutbox = sys.world.db.auditOutbox)
    (hses : sys'.sessions = Function.update sys.sessions t (some ses')) :
    holders sys' = Function.update (holders sys) (some t) (idsOf ses'.log) := by
  funext k
  cases k with
  | none =>
    rw [Function.update_of_ne (by simp)]
    exact congrArg (List.map AuditOutbox.id) hout
  | some t' =>
    by_cases ht : t' = t
    · subst ht
      simp only [holders, hses, Function.update_self, Option.elim_some]
    · rw [Function.update_of_ne (fun h => ht (Option.some.inj h))]
      simp only [holders, hses, Function.update_of_ne ht]

/-- Session `t` ends, and `rows` are committed. -/
theorem holders_close {sys sys' : Sys} {t : Nat} {rows : List AuditOutbox}
    (hout : sys'.world.db.auditOutbox = sys.world.db.auditOutbox ++ rows)
    (hses : sys'.sessions = Function.update sys.sessions t none) :
    holders sys' = Function.update (Function.update (holders sys) none
      (holders sys none ++ rows.map AuditOutbox.id)) (some t) [] := by
  funext k
  cases k with
  | none =>
    rw [Function.update_of_ne (by simp), Function.update_self]
    exact (congrArg (List.map AuditOutbox.id) hout).trans List.map_append
  | some t' =>
    by_cases ht : t' = t
    · subst ht
      simp only [holders, hses, Function.update_self, Option.elim_none]
    · rw [Function.update_of_ne (fun h => ht (Option.some.inj h)),
        Function.update_of_ne (by simp)]
      simp only [holders, hses, Function.update_of_ne ht]

section Steps

variable {sys sys' : Sys} {t : Nat}

/-- What a session has drawn is lost with it. -/
theorem distinct_gone (h : Distinct (holders sys) sys.world.seq) (t : Nat) :
    Distinct (holders (sys.close t)) sys.world.seq := by
  have hheld : holders (sys.close t) = Function.update (Function.update (holders sys) none
      (holders sys none ++ ([] : List AuditOutbox).map AuditOutbox.id)) (some t) [] :=
    holders_close (List.append_nil _).symm rfl
  refine h.sub (Nat.le_refl _) fun k => ?_
  rw [hheld]
  by_cases hk : k = some t
  · subst hk
    rw [Function.update_self]
    exact List.nil_sublist _
  · rw [Function.update_of_ne hk]
    by_cases hn : k = none
    · subst hn
      rw [Function.update_self, List.map_nil, List.append_nil]
    · rw [Function.update_of_ne hn]

/-- A session begins with nothing. -/
theorem distinct_begin {op : Op} (h : Distinct (holders sys) sys.world.seq)
    (hs : sys.step (.begin t op) = some sys') : Distinct (holders sys') sys'.world.seq := by
  obtain ⟨-, hsys⟩ := Discipline.begin_cases hs
  have hworld : sys'.world = sys.world := by rw [hsys]
  have hheld : holders sys' = Function.update (holders sys) (some t) (idsOf []) :=
    holders_update (congrArg (fun w : World => w.db.auditOutbox) hworld)
      (congrArg Txn.Sys.sessions hsys)
  have hseq : sys'.world.seq = sys.world.seq := congrArg World.seq hworld
  refine h.sub (Nat.le_of_eq hseq.symm) fun k => ?_
  rw [hheld]
  by_cases hk : k = some t
  · subst hk
    rw [Function.update_self]
    exact List.nil_sublist _
  · rw [Function.update_of_ne hk]

/-- A statement that succeeds draws the next id for its session, or none. -/
theorem distinct_write {ses : Txn.Session registrar} {s : Stmt} {x : Nat} {v : s.Res}
    {ws : List Write} (h : Distinct (holders sys) sys.world.seq)
    (ht : sys.sessions t = some ses) (hexec : s.exec x (sys.ctx t ses).view = some (.ok (v, ws))) :
    Distinct (Function.update (holders sys) (some t) (idsOf (ses.log ++ ws)))
      (s.effect sys.world).seq := by
  have hids : idsOf (ses.log ++ ws) = holders sys (some t) ++ idsOf ws := by
    simp only [holders, ht, Option.elim_some, idsOf, eventsOf_append, List.map_append]
  rw [hids]
  rcases ids_of_exec (w := sys.world) hexec with ⟨hnil, hw⟩ | ⟨hone, hw⟩
  · rw [hnil, hw, List.append_nil, Function.update_eq_self]
    exact h
  · have hseq : (sys.ctx t ses).view.seq = sys.world.seq := applyLog_seq ses.log sys.world
    rw [hone, hw, hseq]
    exact h.draw (some t)

/-- A statement that fails draws none. -/
theorem distinct_exec {x : Nat} (h : Distinct (holders sys) sys.world.seq)
    (hs : sys.stepExec t x = some sys') : Distinct (holders sys') sys'.world.seq := by
  obtain ⟨ses, s, k, r, c', ht, -, -, hrun, ses', -, hlog, -, -, rfl, -⟩ :=
    Discipline.stepExec_cases hs
  have hout : (s.effect sys.world).db.auditOutbox = sys.world.db.auditOutbox := by
    cases s <;> rfl
  have hheld : holders sys (some t) = idsOf ses.log := by
    simp only [holders, ht, Option.elim_some]
  have hheld' : holders (sys.keep t ses' (s.locks x (sys.ctx t ses).view) (s.effect sys.world))
      = Function.update (holders sys) (some t) (idsOf ses'.log) := holders_update hout rfl
  show Distinct (holders (sys.keep t ses' _ (s.effect sys.world))) (s.effect sys.world).seq
  rw [hheld', hlog]
  unfold Txn.Ctx.run at hrun
  cases hexec : s.exec x (sys.ctx t ses).view with
  | none =>
    rw [show postgres.exec s x (sys.ctx t ses).view = none from hexec] at hrun
    exact absurd hrun (by simp)
  | some out =>
    rw [show postgres.exec s x (sys.ctx t ses).view = some out from hexec] at hrun
    cases out with
    | error e =>
      obtain ⟨-, rfl⟩ := Prod.mk.inj (Option.some.inj hrun)
      rw [effect_of_error hexec]
      show Distinct (Function.update _ _ (idsOf (ses.log ++ []))) _
      rw [List.append_nil, ← hheld, Function.update_eq_self]
      exact h
    | ok p =>
      obtain ⟨-, rfl⟩ := Prod.mk.inj (Option.some.inj hrun)
      exact distinct_write h ht hexec

/-- A commit hands the ids of its session to the table. -/
theorem distinct_commit (h : Distinct (holders sys) sys.world.seq)
    (hs : sys.step (.commit t) = some sys') : Distinct (holders sys') sys'.world.seq := by
  obtain ⟨ses, a, ht, hp, hsys⟩ := Discipline.commit_cases hs
  have hworld : sys'.world = (sys.ctx t ses).view := congrArg Txn.Sys.world hsys
  have hout : sys'.world.db.auditOutbox = sys.world.db.auditOutbox ++ eventsOf ses.log :=
    hworld ▸ outbox_applyLog ses.log sys.world
  have hseq : sys'.world.seq = sys.world.seq := hworld ▸ applyLog_seq ses.log sys.world
  have hmine : holders sys (some t) = (eventsOf ses.log).map AuditOutbox.id := by
    simp only [holders, ht, Option.elim_some, idsOf]
  have hhand := h.hand (i := some t) (k := none) (by simp)
  rw [hmine] at hhand
  rw [hseq, holders_close hout (congrArg Txn.Sys.sessions hsys)]
  exact hhand

end Steps

/-- **No step gives an id out twice.** -/
theorem distinct_step {sys sys' : Sys} {l : Label registrar}
    (h : Distinct (holders sys) sys.world.seq) (hs : sys.step l = some sys') :
    Distinct (holders sys') sys'.world.seq := by
  cases l with
  | begin t op => exact distinct_begin h hs
  | exec t x => exact distinct_exec h hs
  | commit t => exact distinct_commit h hs
  | rollback t =>
    obtain ⟨ses, e, -, -, rfl⟩ := Discipline.rollback_cases hs
    exact distinct_gone h t
  | crash t =>
    rw [Discipline.crash_cases hs]
    exact distinct_gone h t
  | env e =>
    rw [Discipline.env_cases hs]
    cases e <;> exact h

/-- **No id is drawn twice**, in a run from an empty outbox. -/
theorem distinct_run {C : Sys → Label registrar → Prop} {w : World} (hempty : w.db.auditOutbox = [])
    {sys : Sys} (hr : Txn.Sys.Reach C (Txn.Sys.init w) sys) :
    Distinct (holders sys) sys.world.seq := by
  induction hr with
  | refl =>
    have hnil : ∀ k, holders (Txn.Sys.init w) k = [] := by
      intro k
      cases k with
      | none => exact congrArg (List.map AuditOutbox.id) hempty
      | some t => rfl
    constructor
    · exact fun k => hnil k ▸ List.nodup_nil
    · intro k n hn
      rw [hnil k] at hn
      exact absurd hn List.not_mem_nil
    · intro k k' _ n hn
      rw [hnil k] at hn
      exact absurd hn List.not_mem_nil
  | tail _ _ hs ih => exact distinct_step ih hs

end Enroll
