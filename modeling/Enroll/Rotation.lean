/-
# Rotating credentials

An issuer hands out a credential.  Its holder spends it, and the answer is a new one or a refusal.
The log of the issuer has the newest entry first; how the credentials got to whoever spends them does
not show in it.

`spent_once_iff`: no credential is spent twice if and only if each is spent in turn, that is when
its issue is the last thing the log knows of.
-/
import Mathlib.Data.List.Nodup

namespace Rotation

variable {τ : Type}

inductive Entry (τ : Type) where
  | issued (t : τ)
  | spent (t : τ)
  | refused
  deriving DecidableEq, Repr

abbrev Log (τ : Type) := List (Entry τ)

/-! ## 1. Logs -/

def Entry.spends : Entry τ → Option τ
  | spent t => some t
  | _ => none

/-- The credentials that were spent. -/
def spents (l : Log τ) : List τ := l.filterMap Entry.spends

/-- How many were spent and not answered yet. -/
def unanswered : Log τ → Nat
  | [] => 0
  | .spent _ :: l => unanswered l + 1
  | _ :: l => unanswered l - 1

/-- The logs that come about: what is spent was issued, an answer is to somebody, and a credential
is issued once. -/
inductive Log.Valid : Log τ → Prop
  | first (t : τ) : Valid [.issued t]
  | spend {l : Log τ} {t : τ} : Valid l → .issued t ∈ l → Valid (.spent t :: l)
  | issue {l : Log τ} {t : τ} : Valid l → 0 < unanswered l → .issued t ∉ l → Valid (.issued t :: l)
  | refuse {l : Log τ} : Valid l → 0 < unanswered l → Valid (.refused :: l)

/-- The log ends with the issue of `t`. -/
def InTurn (l : Log τ) (t : τ) : Prop := l.head? = some (.issued t)

/-- Every credential was spent in turn. -/
def Disciplined : Log τ → Prop
  | [] => True
  | .spent t :: l => InTurn l t ∧ Disciplined l
  | _ :: l => Disciplined l

section Small

variable {l : Log τ} {t t' : τ}

@[simp] theorem spents_issued : spents (.issued t :: l) = spents l := rfl
@[simp] theorem spents_spent : spents (.spent t :: l) = t :: spents l := rfl
@[simp] theorem spents_refused : spents (.refused :: l) = spents l := rfl

@[simp] theorem unanswered_spent : unanswered (.spent t :: l) = unanswered l + 1 := rfl
@[simp] theorem unanswered_issued : unanswered (.issued t :: l) = unanswered l - 1 := rfl
@[simp] theorem unanswered_refused : unanswered (.refused :: l) = unanswered l - 1 := rfl

@[simp] theorem inTurn_issued : InTurn (.issued t :: l) t' ↔ t = t' := by simp [InTurn]
@[simp] theorem inTurn_spent : ¬ InTurn (.spent t :: l) t' := by simp [InTurn]
@[simp] theorem inTurn_refused : ¬ InTurn (.refused :: l) t' := by simp [InTurn]

end Small

/-! ## 2. What a disciplined log knows -/

theorem issued_of_spents {l : Log τ} {t : τ} (h : l.Valid) (ht : t ∈ spents l) : .issued t ∈ l := by
  induction h with
  | first t' => simp [spents, Entry.spends] at ht
  | spend hl hissued ih =>
    rcases List.mem_cons.mp ht with rfl | ht
    · exact List.mem_cons_of_mem _ hissued
    · exact List.mem_cons_of_mem _ (ih ht)
  | issue hl hopen hfresh ih => exact List.mem_cons_of_mem _ (ih ht)
  | refuse hl hopen ih => exact List.mem_cons_of_mem _ (ih ht)

/-- At most one credential is unanswered, and then the log ends with it. -/
theorem unanswered_le {l : Log τ} (h : l.Valid) (hd : Disciplined l) :
    unanswered l ≤ 1 ∧ (0 < unanswered l → ∀ t, ¬ InTurn l t) := by
  induction h with
  | first t => exact ⟨Nat.zero_le _, fun h => absurd h (by simp [unanswered])⟩
  | spend hl hissued ih =>
    obtain ⟨hturn, hd⟩ := hd
    obtain ⟨-, hlast⟩ := ih hd
    refine ⟨?_, fun _ _ => inTurn_spent⟩
    by_contra hmany
    exact hlast (by simp only [unanswered_spent] at hmany; omega) _ hturn
  | issue hl hopen hfresh ih =>
    obtain ⟨hone, -⟩ := ih hd
    simp only [unanswered_issued]
    exact ⟨by omega, fun h => absurd h (by omega)⟩
  | refuse hl hopen ih =>
    obtain ⟨hone, -⟩ := ih hd
    simp only [unanswered_refused]
    exact ⟨by omega, fun h => absurd h (by omega)⟩

/-- What was issued is spent, except the credential whose turn it is. -/
theorem spent_iff {l : Log τ} {t : τ} (h : l.Valid) (hd : Disciplined l) (ht : .issued t ∈ l) :
    t ∈ spents l ↔ ¬ InTurn l t := by
  induction h with
  | first t' =>
    obtain rfl : t = t' := by simpa using ht
    simp [spents, Entry.spends]
  | @spend l t' hl hissued ih =>
    obtain ⟨hturn, hd⟩ := hd
    have ht' : .issued t ∈ l := by simpa using ht
    constructor
    · exact fun _ => inTurn_spent
    · intro _
      by_cases hsame : t = t'
      · simp [hsame]
      · refine List.mem_cons_of_mem _ ((ih hd ht').mpr fun h => hsame ?_)
        simpa using (h.symm.trans hturn)
  | @issue l t' hl hopen hfresh ih =>
    by_cases hsame : t = t'
    · subst hsame
      have hnew : t ∉ spents l := fun h => hfresh (issued_of_spents hl h)
      simp [hnew]
    · have ht' : .issued t ∈ l := by simpa [hsame] using ht
      have hold := (ih hd ht').mpr ((unanswered_le hl hd).2 hopen t)
      simp [hold, Ne.symm hsame]
  | refuse hl hopen ih =>
    have ht' := List.mem_of_ne_of_mem (by simp) ht
    have hold := (ih hd ht').mpr ((unanswered_le hl hd).2 hopen t)
    simp [hold]

/-- **No credential is spent twice if and only if each is spent in turn.** -/
theorem spent_once_iff {l : Log τ} (h : l.Valid) : (spents l).Nodup ↔ Disciplined l := by
  induction h with
  | first t => exact iff_of_true List.nodup_nil trivial
  | @spend l t hl hissued ih =>
    rw [spents_spent, List.nodup_cons, ih]
    constructor
    · rintro ⟨hnew, hd⟩
      exact ⟨by_contra fun hturn => hnew ((spent_iff hl hd hissued).mpr hturn), hd⟩
    · rintro ⟨hturn, hd⟩
      exact ⟨fun hold => (spent_iff hl hd hissued).mp hold hturn, hd⟩
  | issue hl hopen hfresh ih => exact ih
  | refuse hl hopen ih => exact ih

end Rotation
