/-
# A cache beside a store

A request looks into the cache first.  On a hit it is answered from there; on a miss its handler
asks the store, one read after another while the store goes on changing, answers, and puts the
answer into the cache afterwards, to be served until it expires.  The cache can be cleared, and it
can be down.

Nothing ties the cache to the store but time: `Sound` says that all that an entry was computed from
was read from the store after its request began.  So an answer is as old as the time to live and the
time a request takes (`answered_within`), and after the cache has been cleared nothing older is
served unless a request was under way (`answered_since`).
-/
import Enroll.Machine
import Mathlib.Logic.Function.Basic

namespace LookAside

/-! ## 1. Handlers -/

/-- A computation that asks the queries `Q`, each of which is answered by an `R q`. -/
inductive Reader (Q : Type) (R : Q → Type) (ρ : Type) where
  | done (r : ρ)
  | ask (q : Q) (next : R q → Reader Q R ρ)

namespace Reader

variable {Q : Type} {R : Q → Type} {ρ σ : Type} {look : σ → (q : Q) → R q} {P P' : σ → Prop}
  {p : Reader Q R ρ} {r : ρ}

/-- `r` is a result of the computation when each query is asked in some store with `P`. -/
inductive Saw (look : σ → (q : Q) → R q) (P : σ → Prop) : Reader Q R ρ → ρ → Prop
  | done (r : ρ) : Saw look P (.done r) r
  | ask {q : Q} {next : R q → Reader Q R ρ} {w : σ} {r : ρ} (hw : P w)
      (h : Saw look P (next (look w q)) r) : Saw look P (.ask q next) r

theorem Saw.mono (hP : ∀ w, P w → P' w) (h : p.Saw look P r) : p.Saw look P' r := by
  induction h with
  | done r => exact .done r
  | ask hw _ ih => exact .ask (hP _ hw) ih

/-- The result when all the queries are asked in one store. -/
def run (look : σ → (q : Q) → R q) (w : σ) : Reader Q R ρ → ρ
  | done r => r
  | ask q next => run look w (next (look w q))

end Reader

/-! ## 2. The machine -/

/-- An answer in the cache; it is served up to the time `expires`. -/
structure Entry (ρ : Type) where
  value : ρ
  expires : Nat

/-- How far a request has come. -/
inductive Phase (Q : Type) (R : Q → Type) (ρ : Type) where
  | reading (p : Reader Q R ρ)
  /-- the answer is given, and is about to be stored -/
  | storing (r : ρ)

/-- A request that missed. -/
structure Flight (κ : Type) (Q : Type) (R : Q → Type) (ρ : Type) where
  key : κ
  began : Nat
  /-- its answer is for the cache too -/
  keeps : Bool
  phase : Phase Q R ρ

structure Answer (κ ρ : Type) where
  key : κ
  value : ρ
  time : Nat

/-- The store, the clock, the cache, the requests that missed, and the answers, newest first. -/
structure State (σ κ : Type) (Q : Type) (R : Q → Type) (ρ : Type) where
  world : σ
  now : Nat
  cache : κ → Option (Entry ρ)
  flights : Nat → Option (Flight κ Q R ρ)
  answers : List (Answer κ ρ)

inductive Event (σ κ : Type) where
  /-- the store changes -/
  | write (w : σ)
  | tick (ms : Nat)
  /-- request `i` arrives; the cache is `up` or not -/
  | request (i : Nat) (k : κ) (up : Bool)
  /-- its handler asks a query, or answers -/
  | read (i : Nat)
  | store (i : Nat) (up : Bool)
  /-- the process that serves it dies -/
  | crash (i : Nat)
  | clear (up : Bool)

/-- The handlers, which answers are stored, and for how long. -/
structure Service (σ κ : Type) (Q : Type) (R : Q → Type) (ρ : Type) where
  look : σ → (q : Q) → R q
  handler : κ → Reader Q R ρ
  cacheable : ρ → Bool
  ttl : Nat

namespace State

variable {σ κ Q ρ : Type} {R : Q → Type}

/-- Nothing has been asked yet. -/
def init (w : σ) (now : Nat) : State σ κ Q R ρ := ⟨w, now, fun _ => none, fun _ => none, []⟩

/-- What the cache serves under `k`. -/
def lookup (s : State σ κ Q R ρ) (k : κ) : Option ρ :=
  ((s.cache k).filter fun e => s.now ≤ e.expires).map Entry.value

def answered (s : State σ κ Q R ρ) (k : κ) (r : ρ) : State σ κ Q R ρ :=
  { s with answers := ⟨k, r, s.now⟩ :: s.answers }

def fly (s : State σ κ Q R ρ) (i : Nat) (f : Option (Flight κ Q R ρ)) : State σ κ Q R ρ :=
  { s with flights := Function.update s.flights i f }

/-- One event; `none` when it cannot happen. -/
def step [DecidableEq κ] (S : Service σ κ Q R ρ) (s : State σ κ Q R ρ) :
    Event σ κ → Option (State σ κ Q R ρ)
  | .write w => some { s with world := w }
  | .tick ms => some { s with now := s.now + ms }
  | .request i k up =>
    match s.flights i with
    | some _ => none
    | none =>
      match if up then s.lookup k else none with
      | some r => some (s.answered k r)
      | none => some (s.fly i (some ⟨k, s.now, up, .reading (S.handler k)⟩))
  | .read i =>
    match s.flights i with
    | none => none
    | some f =>
      match f.phase with
      | .storing _ => none
      | .reading (.ask q next) =>
        some (s.fly i (some { f with phase := .reading (next (S.look s.world q)) }))
      | .reading (.done r) =>
        if f.keeps && S.cacheable r then
          some ((s.answered f.key r).fly i (some { f with phase := .storing r }))
        else some ((s.answered f.key r).fly i none)
  | .store i up =>
    match s.flights i with
    | none => none
    | some f =>
      match f.phase with
      | .reading _ => none
      | .storing r =>
        if up then
          some ({ s with
            cache := Function.update s.cache f.key (some ⟨r, s.now + S.ttl⟩) }.fly i none)
        else some (s.fly i none)
  | .crash i =>
    match s.flights i with
    | none => none
    | some _ => some (s.fly i none)
  | .clear up => some (if up then { s with cache := fun _ => none } else s)

end State

/-! ## 3. What an event does -/

section Cases

variable {σ κ Q ρ : Type} {R : Q → Type} [DecidableEq κ] {S : Service σ κ Q R ρ}
  {s s' : State σ κ Q R ρ} {i : Nat} {k : κ} {up : Bool}

theorem request_cases (h : s.step S (.request i k up) = some s') :
    s.flights i = none ∧ ((∃ r, s.lookup k = some r ∧ s' = s.answered k r) ∨
      s' = s.fly i (some ⟨k, s.now, up, .reading (S.handler k)⟩)) := by
  simp only [State.step] at h
  cases hf : s.flights i with
  | some f => simp [hf] at h
  | none =>
    refine ⟨rfl, ?_⟩
    simp only [hf] at h
    split at h
    · rename_i r hr
      split at hr
      · exact .inl ⟨r, hr, (Option.some.inj h).symm⟩
      · exact absurd hr (by simp)
    · exact .inr (Option.some.inj h).symm

theorem read_cases (h : s.step S (.read i) = some s') :
    ∃ f, s.flights i = some f ∧
      ((∃ q next, f.phase = .reading (.ask q next) ∧
        s' = s.fly i (some { f with phase := .reading (next (S.look s.world q)) })) ∨
      ∃ r, f.phase = .reading (.done r) ∧
        (s' = (s.answered f.key r).fly i (some { f with phase := .storing r }) ∨
          s' = (s.answered f.key r).fly i none)) := by
  simp only [State.step] at h
  cases hf : s.flights i with
  | none => simp [hf] at h
  | some f =>
    refine ⟨f, rfl, ?_⟩
    simp only [hf] at h
    split at h
    · exact absurd h (by simp)
    · rename_i q next hp
      exact .inl ⟨q, next, hp, (Option.some.inj h).symm⟩
    · rename_i r hp
      refine .inr ⟨r, hp, ?_⟩
      split at h
      · exact .inl (Option.some.inj h).symm
      · exact .inr (Option.some.inj h).symm

theorem store_cases (h : s.step S (.store i up) = some s') :
    ∃ f r, s.flights i = some f ∧ f.phase = .storing r ∧
      (s' = { s with cache := Function.update s.cache f.key (some ⟨r, s.now + S.ttl⟩) }.fly i none ∨
        s' = s.fly i none) := by
  simp only [State.step] at h
  cases hf : s.flights i with
  | none => simp [hf] at h
  | some f =>
    simp only [hf] at h
    split at h
    · exact absurd h (by simp)
    · rename_i r hp
      refine ⟨f, r, rfl, hp, ?_⟩
      split at h
      · exact .inl (Option.some.inj h).symm
      · exact .inr (Option.some.inj h).symm

theorem crash_cases (h : s.step S (.crash i) = some s') : s' = s.fly i none := by
  simp only [State.step] at h
  split at h
  · exact absurd h (by simp)
  · exact (Option.some.inj h).symm

/-- The clock does not run backwards. -/
theorem now_of_step {e : Event σ κ} (h : s.step S e = some s') : s.now ≤ s'.now := by
  cases e with
  | write w => exact Option.some.inj h ▸ Nat.le_refl _
  | tick ms => exact Option.some.inj h ▸ Nat.le_add_right _ _
  | request i k up =>
    obtain ⟨-, ⟨r, -, rfl⟩ | rfl⟩ := request_cases h <;> exact Nat.le_refl _
  | read i =>
    obtain ⟨f, -, ⟨q, next, -, rfl⟩ | ⟨r, -, rfl | rfl⟩⟩ := read_cases h <;> exact Nat.le_refl _
  | store i up =>
    obtain ⟨f, r, -, -, rfl | rfl⟩ := store_cases h <;> exact Nat.le_refl _
  | crash i => exact crash_cases h ▸ Nat.le_refl _
  | clear up =>
    obtain rfl := Option.some.inj h
    split <;> exact Nat.le_refl _

end Cases

/-! ## 4. Where answers come from -/

section Sound

variable {σ κ Q ρ : Type} {R : Q → Type} [DecidableEq κ]

/-- The runs under a condition. -/
abbrev Runs (S : Service σ κ Q R ρ) (C : State σ κ Q R ρ → Event σ κ → Prop) :
    State σ κ Q R ρ → State σ κ Q R ρ → Prop :=
  Machine.Reach (State.step S) C

/-- The stores that were current between `m₀` and `s` at a time with `B`. -/
def Past (S : Service σ κ Q R ρ) (C : State σ κ Q R ρ → Event σ κ → Prop) (m₀ s : State σ κ Q R ρ)
    (B : Nat → Prop) (w : σ) : Prop :=
  ∃ m, Runs S C m₀ m ∧ Runs S C m s ∧ B m.now ∧ m.world = w

/-- A handler answers, and its answer is stored, only while `bound` holds of when it began and of
now. -/
def Prompt (bound : Nat → Nat → Prop) (s : State σ κ Q R ρ) : Event σ κ → Prop
  | .read i => ∀ f, s.flights i = some f → bound f.began s.now
  | .store i _ => ∀ f, s.flights i = some f → bound f.began s.now
  | _ => True

variable {S : Service σ κ Q R ρ} {C : State σ κ Q R ρ → Event σ κ → Prop}
  {m₀ s s' : State σ κ Q R ρ} {B B' : Nat → Prop} {bound : Nat → Nat → Prop} {w : σ} {k : κ}
  {e : Event σ κ}

theorem Runs.now_le (h : Runs S C s s') : s.now ≤ s'.now := by
  induction h with
  | refl => exact Nat.le_refl _
  | tail _ _ hs ih => exact Nat.le_trans ih (now_of_step hs)

theorem Past.mono (hB : ∀ t, t ≤ s.now → B t → B' t) (h : Past S C m₀ s B w) :
    Past S C m₀ s B' w := by
  obtain ⟨m, hm, hms, ht, rfl⟩ := h
  exact ⟨m, hm, hms, hB _ hms.now_le ht, rfl⟩

theorem Past.later (hs : Runs S C s s') (h : Past S C m₀ s B w) : Past S C m₀ s' B w := by
  obtain ⟨m, hm, hms, ht, rfl⟩ := h
  exact ⟨m, hm, hms.trans hs, ht, rfl⟩

theorem Past.current (hr : Runs S C m₀ s) (hB : B s.now) : Past S C m₀ s B s.world :=
  ⟨s, hr, .refl, hB, rfl⟩

variable (S C m₀ k s)

/-- What is left of a handler, after reads of the past. -/
structure FlightSound (f : Flight κ Q R ρ) : Prop where
  began : f.began ≤ s.now
  reading : ∀ p, f.phase = .reading p → ∀ P r, (∀ w, Past S C m₀ s (f.began ≤ ·) w → P w) →
    p.Saw S.look P r → (S.handler k).Saw S.look P r
  storing : ∀ r, f.phase = .storing r → (S.handler k).Saw S.look (Past S C m₀ s (f.began ≤ ·)) r

/-- An entry that was stored at time `t`, of a request that began at time `b`. -/
def EntrySound (bound : Nat → Nat → Prop) (e : Entry ρ) : Prop :=
  ∃ b t, bound b t ∧ e.expires = t + S.ttl ∧
    (S.handler k).Saw S.look (Past S C m₀ s (b ≤ ·)) e.value

/-- An answer is that of a handler, or was stored by one. -/
def AnswerSound (bound : Nat → Nat → Prop) (a : Answer κ ρ) : Prop :=
  ∃ b t, bound b t ∧ a.time ≤ t + S.ttl ∧
    (S.handler k).Saw S.look (Past S C m₀ s fun u => b ≤ u ∧ u ≤ a.time) a.value

/-- All that is under way for `k`, stored under it and answered to it since `m₀` was read since. -/
structure Sound (bound : Nat → Nat → Prop) : Prop where
  flights : ∀ i f, s.flights i = some f → f.key = k → FlightSound S C m₀ s k f
  cache : ∀ e, s.cache k = some e → EntrySound S C m₀ s k bound e
  answers : ∃ new, s.answers = new ++ m₀.answers ∧
    ∀ a ∈ new, a.key = k → AnswerSound S C m₀ s k bound a

variable {S C m₀ k s}

theorem FlightSound.later {f : Flight κ Q R ρ} (hs : Runs S C s s')
    (h : FlightSound S C m₀ s k f) : FlightSound S C m₀ s' k f where
  began := Nat.le_trans h.began hs.now_le
  reading p hp P r hP := h.reading p hp P r fun w hw => hP w (hw.later hs)
  storing r hr := (h.storing r hr).mono fun _ hw => hw.later hs

theorem EntrySound.later {e : Entry ρ} (hs : Runs S C s s')
    (h : EntrySound S C m₀ s k bound e) : EntrySound S C m₀ s' k bound e := by
  obtain ⟨b, t, hb, he, hsaw⟩ := h
  exact ⟨b, t, hb, he, hsaw.mono fun _ hw => hw.later hs⟩

theorem AnswerSound.later {a : Answer κ ρ} (hs : Runs S C s s')
    (h : AnswerSound S C m₀ s k bound a) : AnswerSound S C m₀ s' k bound a := by
  obtain ⟨b, t, hb, he, hsaw⟩ := h
  exact ⟨b, t, hb, he, hsaw.mono fun _ hw => hw.later hs⟩

/-- What stays as it was stays sound. -/
theorem Sound.later (hs : Runs S C s s') (h : Sound S C m₀ s k bound)
    (hflights : ∀ i f, s'.flights i = some f → s.flights i = some f)
    (hcache : ∀ e, s'.cache k = some e → s.cache k = some e) (hanswers : s'.answers = s.answers) :
    Sound S C m₀ s' k bound where
  flights i f hf hk := (h.flights i f (hflights i f hf) hk).later hs
  cache e he := (h.cache e (hcache e he)).later hs
  answers := by
    obtain ⟨new, hnew, hsound⟩ := h.answers
    exact ⟨new, hanswers.trans hnew, fun a ha hk => (hsound a ha hk).later hs⟩

/-- A new answer, and the requests that are under way after it. -/
theorem Sound.answered (h : Sound S C m₀ s k bound) {k' : κ} {r : ρ}
    (ha : k' = k → AnswerSound S C m₀ s k bound ⟨k', r, s.now⟩)
    (hs : Runs S C s s') (hflights : ∀ i f, s'.flights i = some f → f.key = k →
      FlightSound S C m₀ s' k f) (hcache : s'.cache = s.cache)
    (hanswers : s'.answers = ⟨k', r, s.now⟩ :: s.answers) : Sound S C m₀ s' k bound where
  flights := hflights
  cache e he := (h.cache e (hcache ▸ he)).later hs
  answers := by
    obtain ⟨new, hnew, hsound⟩ := h.answers
    refine ⟨⟨k', r, s.now⟩ :: new, by rw [hanswers, hnew]; rfl, fun a hmem hk => ?_⟩
    rcases List.mem_cons.mp hmem with rfl | hmem
    · exact (ha hk).later hs
    · exact (hsound a hmem hk).later hs

omit [DecidableEq κ] in
theorem flights_of_fly {i j : Nat} {o : Option (Flight κ Q R ρ)} {f : Flight κ Q R ρ}
    (h : (s.fly i o).flights j = some f) :
    (j = i ∧ o = some f) ∨ (j ≠ i ∧ s.flights j = some f) := by
  have h : Function.update s.flights i o j = some f := h
  by_cases hj : j = i
  · subst hj
    rw [Function.update_self] at h
    exact .inl ⟨rfl, h⟩
  · rw [Function.update_of_ne hj] at h
    exact .inr ⟨hj, h⟩

/-- The answer that a handler has come to is that of reads since it began. -/
theorem FlightSound.done {f : Flight κ Q R ρ} {r : ρ} (h : FlightSound S C m₀ s k f)
    (hp : f.phase = .reading (.done r)) :
    (S.handler k).Saw S.look (Past S C m₀ s (f.began ≤ ·)) r :=
  h.reading _ hp _ r (fun _ hw => hw) (.done r)

/-- What the cache serves is sound as an answer. -/
theorem Sound.lookup (h : Sound S C m₀ s k bound) {r : ρ} (hr : s.lookup k = some r) :
    AnswerSound S C m₀ s k bound ⟨k, r, s.now⟩ := by
  obtain ⟨e, he, rfl⟩ := Option.map_eq_some_iff.mp hr
  obtain ⟨he, hlive⟩ := Option.filter_eq_some_iff.mp he
  obtain ⟨b, t, hb, hexp, hsaw⟩ := h.cache e he
  refine ⟨b, t, hb, ?_, hsaw.mono fun _ hw => hw.mono fun u hu hbu => ⟨hbu, hu⟩⟩
  rw [← hexp]
  exact of_decide_eq_true hlive

/-- A request goes on or ends without an answer. -/
theorem Sound.flown {i : Nat} {o : Option (Flight κ Q R ρ)} (h : Sound S C m₀ s k bound)
    (hs : Runs S C s s') (hflights : s'.flights = (s.fly i o).flights)
    (ho : ∀ f, o = some f → f.key = k → FlightSound S C m₀ s' k f)
    (hcache : ∀ e, s'.cache k = some e → EntrySound S C m₀ s' k bound e)
    (hanswers : s'.answers = s.answers) : Sound S C m₀ s' k bound where
  flights j f hj hk := by
    rcases flights_of_fly (hflights ▸ hj) with ⟨-, hf⟩ | ⟨-, hf⟩
    · exact ho f hf hk
    · exact (h.flights j f hf hk).later hs
  cache := hcache
  answers := by
    obtain ⟨new, hnew, hsound⟩ := h.answers
    exact ⟨new, hanswers.trans hnew, fun a ha hk => (hsound a ha hk).later hs⟩

/-- A hit is answered from the cache; a miss starts the handler. -/
theorem Sound.request {i : Nat} {k' : κ} {up : Bool} (h : Sound S C m₀ s k bound)
    (hs : Runs S C s s') (hstep : s.step S (.request i k' up) = some s') :
    Sound S C m₀ s' k bound := by
  obtain ⟨-, ⟨r, hlook, rfl⟩ | rfl⟩ := request_cases hstep
  · refine h.answered (fun hk => ?_) hs (fun j f hf hk => (h.flights j f hf hk).later hs) rfl rfl
    subst hk
    exact h.lookup hlook
  · refine h.flown hs rfl (fun f hf hk => ?_) (fun e he => (h.cache e he).later hs) rfl
    obtain rfl := Option.some.inj hf
    obtain rfl : k' = k := hk
    refine ⟨Nat.le_refl _, ?_, fun r hp => absurd hp (by simp)⟩
    rintro p hp P r - hsaw
    obtain rfl := Phase.reading.inj hp
    exact hsaw

/-- A handler asks its next query, or has its answer and gives it. -/
theorem Sound.read {i : Nat} (h : Sound S C m₀ s k bound) (hr : Runs S C m₀ s)
    (hs : Runs S C s s') (hprompt : Prompt bound s (.read i))
    (hstep : s.step S (.read i) = some s') : Sound S C m₀ s' k bound := by
  obtain ⟨f, hf, ⟨q, next, hp, rfl⟩ | ⟨r, hp, hend⟩⟩ := read_cases hstep
  · refine h.flown hs rfl (fun f' hf' hk => ?_) (fun e he => (h.cache e he).later hs) rfl
    obtain rfl := Option.some.inj hf'
    have hsound := h.flights i f hf hk
    refine ⟨hsound.began, ?_, fun r hp => absurd hp (by simp)⟩
    rintro p hp' P r hP hsaw
    obtain rfl := Phase.reading.inj hp'
    refine hsound.reading _ hp P r (fun w hw => hP w (hw.later hs)) (.ask ?_ hsaw)
    exact hP _ ((Past.current hr hsound.began).later hs)
  · have hanswer (hk : f.key = k) : AnswerSound S C m₀ s k bound ⟨f.key, r, s.now⟩ := by
      refine ⟨f.began, s.now, hprompt f hf, Nat.le_add_right _ _, ?_⟩
      exact ((h.flights i f hf hk).done hp).mono fun _ hw => hw.mono fun u hu hb => ⟨hb, hu⟩
    have hothers {o : Option (Flight κ Q R ρ)} (ho : ∀ f, o = some f → f.key = k →
        FlightSound S C m₀ s' k f) (j : Nat) (f : Flight κ Q R ρ)
        (hj : (s.fly i o).flights j = some f) (hk : f.key = k) : FlightSound S C m₀ s' k f := by
      rcases flights_of_fly hj with ⟨-, hf⟩ | ⟨-, hf⟩
      · exact ho f hf hk
      · exact (h.flights j f hf hk).later hs
    rcases hend with rfl | rfl
    · refine h.answered hanswer hs (hothers fun f' hf' hk => ?_) rfl rfl
      obtain rfl := Option.some.inj hf'
      have hsound := h.flights i f hf hk
      refine ⟨hsound.began, fun p hp' => absurd hp' (by simp), fun r' hp' => ?_⟩
      obtain rfl := Phase.storing.inj hp'
      exact (hsound.done hp).mono fun _ hw => hw.later hs
    · exact h.answered hanswer hs (hothers fun f' hf' _ => absurd hf' (by simp)) rfl rfl

/-- An answer is stored, or the cache is down. -/
theorem Sound.store {i : Nat} {up : Bool} (h : Sound S C m₀ s k bound) (hs : Runs S C s s')
    (hprompt : Prompt bound s (.store i up)) (hstep : s.step S (.store i up) = some s') :
    Sound S C m₀ s' k bound := by
  obtain ⟨f, r, hf, hp, rfl | rfl⟩ := store_cases hstep
  · refine h.flown hs rfl (fun f' hf' _ => absurd hf' (by simp)) (fun e he => ?_) rfl
    have he : Function.update s.cache f.key (some ⟨r, s.now + S.ttl⟩) k = some e := he
    by_cases hk : k = f.key
    · subst hk
      rw [Function.update_self, Option.some.injEq] at he
      subst he
      refine ⟨f.began, s.now, hprompt f hf, rfl, ?_⟩
      exact ((h.flights i f hf rfl).storing r hp).mono fun _ hw => hw.later hs
    · rw [Function.update_of_ne hk] at he
      exact (h.cache e he).later hs
  · exact h.flown hs rfl (fun f' hf' _ => absurd hf' (by simp)) (fun e he => (h.cache e he).later hs)
      rfl

/-- **What is sound stays sound.** -/
theorem Sound.step (hC : ∀ s e, C s e → Prompt bound s e) (h : Sound S C m₀ s k bound)
    (hr : Runs S C m₀ s) (hc : C s e) (hstep : s.step S e = some s') :
    Sound S C m₀ s' k bound := by
  have hs : Runs S C s s' := Machine.Reach.refl.tail hc hstep
  cases e with
  | write w =>
    obtain rfl := Option.some.inj hstep
    exact h.later hs (fun _ _ hf => hf) (fun _ he => he) rfl
  | tick ms =>
    obtain rfl := Option.some.inj hstep
    exact h.later hs (fun _ _ hf => hf) (fun _ he => he) rfl
  | request i k' up => exact h.request hs hstep
  | read i => exact h.read hr hs (hC s _ hc) hstep
  | store i up => exact h.store hs (hC s _ hc) hstep
  | crash i =>
    obtain rfl := crash_cases hstep
    exact h.flown hs rfl (fun f' hf' _ => absurd hf' (by simp)) (fun e he => (h.cache e he).later hs)
      rfl
  | clear up =>
    obtain rfl := Option.some.inj hstep
    cases up with
    | false => exact h.later hs (fun _ _ hf => hf) (fun _ he => he) rfl
    | true => exact h.later hs (fun _ _ hf => hf) (fun _ he => absurd he (by simp)) rfl

/-- Nothing is under way for `k`, and nothing is stored under it. -/
structure Blank (s : State σ κ Q R ρ) (k : κ) : Prop where
  flights : ∀ i f, s.flights i = some f → f.key ≠ k
  cache : s.cache k = none

theorem Sound.run (hC : ∀ s e, C s e → Prompt bound s e) (h₀ : Blank m₀ k) (hr : Runs S C m₀ s) :
    Sound S C m₀ s k bound := by
  induction hr with
  | refl =>
    refine ⟨fun i f hf hk => absurd hk (h₀.flights i f hf), fun e he => ?_, [], rfl, ?_⟩
    · exact absurd (h₀.cache.symm.trans he) (by simp)
    · exact fun a ha => absurd ha List.not_mem_nil
  | tail hr hc hs ih => exact ih.step hC hr hc hs

/-- **An answer is as old as the time to live and the time a request takes**: all that it was made
from was read at most so long before it. -/
theorem answered_within {L : Nat} (hC : ∀ s e, C s e → Prompt (fun b t => t ≤ b + L) s e)
    {now : Nat} (hr : Runs S C (.init w now) s) {a : Answer κ ρ} (ha : a ∈ s.answers) :
    (S.handler a.key).Saw S.look
      (Past S C (.init w now) s fun u => u ≤ a.time ∧ a.time ≤ u + L + S.ttl) a.value := by
  have hblank : Blank (.init w now : State σ κ Q R ρ) a.key :=
    ⟨fun i f hf => absurd hf (by simp [State.init]), rfl⟩
  obtain ⟨new, hnew, hsound⟩ := (Sound.run hC hblank hr).answers
  have hmem : a ∈ new := by
    rw [hnew] at ha
    exact (List.mem_append.mp ha).resolve_right List.not_mem_nil
  obtain ⟨b, t, hb, hexp, hsaw⟩ := hsound a hmem rfl
  refine hsaw.mono fun _ hw => hw.mono fun u _ hu => ⟨hu.2, ?_⟩
  have := hu.1
  omega

/-- **Once nothing is stored under a key or under way for it, nothing older is answered to it.** -/
theorem answered_since (h₀ : Blank m₀ k) (hr : Runs S C m₀ s) :
    ∃ new, s.answers = new ++ m₀.answers ∧ ∀ a ∈ new, a.key = k →
      (S.handler k).Saw S.look (Past S C m₀ s (· ≤ a.time)) a.value := by
  have hC : ∀ s e, C s e → Prompt (fun _ _ => True) s e := fun s e _ => by
    cases e <;> simp [Prompt]
  obtain ⟨new, hnew, hsound⟩ := (Sound.run hC h₀ hr).answers
  refine ⟨new, hnew, fun a ha hk => ?_⟩
  obtain ⟨b, t, -, -, hsaw⟩ := hsound a ha hk
  exact hsaw.mono fun _ hw => hw.mono fun _ _ hu => hu.2

end Sound

end LookAside
