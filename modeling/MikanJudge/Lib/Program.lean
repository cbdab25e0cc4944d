import Mathlib.Init

/-!
# Programs that make requests

A program has its result, or makes a request and goes on with the reply. What
it is replied is open: `Runs` relates a program to the exchanges it can have,
in order, and to its result. `runs_bind` takes a run of a sequence apart, and
`runs_bind_run` that of a sequence whose first part may fail. `Ensures` is what
holds of every run, with a rule for each construct; `play` is the run with given
replies. `Reaches` relates a program to what it has left after some exchanges.
-/

namespace MikanJudge.Lib

/-- Programs with requests of type `E`, each with its type of replies. -/
inductive Program {E : Type} (R : E → Type) (α : Type) : Type
  | pure (a : α)
  | request (e : E) (k : R e → Program R α)

/-- A request and its reply. -/
abbrev Exchange {E : Type} (R : E → Type) := (e : E) × R e

namespace Program

variable {E : Type} {R : E → Type} {α β ε : Type}

def bind : Program R α → (α → Program R β) → Program R β
  | pure a, f => f a
  | request e k, f => request e fun r => (k r).bind f

instance : Monad (Program R) where
  pure := pure
  bind := bind

theorem bind_assoc {γ : Type} (p : Program R α) (f : α → Program R β) (g : β → Program R γ) :
    (p.bind f).bind g = p.bind fun a => (f a).bind g := by
  induction p with
  | pure a => rfl
  | request e k ih => exact congrArg (request e) (funext ih)

/-- One request, for its reply. -/
def ask (e : E) : Program R (R e) := request e pure

inductive Runs : Program R α → List (Exchange R) → α → Prop
  | pure (a : α) : Runs (pure a) [] a
  | request {e : E} {k : R e → Program R α} {r : R e} {tr : List (Exchange R)} {a : α} :
    Runs (k r) tr a → Runs (request e k) (⟨e, r⟩ :: tr) a

/-! ## Taking a run apart -/

variable {p : Program R α} {f : α → Program R β} {tr : List (Exchange R)} {a b : α} {c : β} {e : E}

@[simp] theorem runs_pure : (Pure.pure a : Program R α).Runs tr b ↔ tr = [] ∧ b = a := by
  constructor
  · rintro ⟨⟩
    exact ⟨rfl, rfl⟩
  · rintro ⟨rfl, rfl⟩
    exact .pure _

@[simp] theorem runs_ask {r : R e} : (ask e : Program R (R e)).Runs tr r ↔ tr = [⟨e, r⟩] := by
  constructor
  · intro h
    cases h with
    | request h =>
      cases h
      rfl
  · rintro rfl
    exact .request (.pure _)

theorem runs_bind : (p >>= f).Runs tr c ↔
    ∃ tr₁ a tr₂, p.Runs tr₁ a ∧ (f a).Runs tr₂ c ∧ tr = tr₁ ++ tr₂ := by
  change (p.bind f).Runs tr c ↔ _
  induction p generalizing tr with
  | pure a =>
    constructor
    · exact fun h => ⟨[], a, tr, .pure a, h, rfl⟩
    · rintro ⟨tr₁, a', tr₂, ⟨⟩, h, rfl⟩
      exact h
  | request e k ih =>
    constructor
    · intro h
      cases h with
      | request h =>
        obtain ⟨tr₁, a, tr₂, h₁, h₂, rfl⟩ := (ih _).mp h
        exact ⟨_, a, tr₂, .request h₁, h₂, rfl⟩
    · rintro ⟨tr₁, a, tr₂, h₁, h₂, rfl⟩
      cases h₁ with
      | request h₁ => exact .request ((ih _).mpr ⟨_, a, tr₂, h₁, h₂, rfl⟩)

theorem runs_ask_bind {g : R e → Program R β} : (ask e >>= g).Runs tr c ↔
    ∃ r tr', (g r).Runs tr' c ∧ tr = ⟨e, r⟩ :: tr' := by
  rw [runs_bind]
  constructor
  · rintro ⟨tr₁, r, tr₂, h₁, h₂, rfl⟩
    rw [runs_ask] at h₁
    exact ⟨r, tr₂, h₂, by rw [h₁]; rfl⟩
  · rintro ⟨r, tr', h, rfl⟩
    exact ⟨[⟨e, r⟩], r, tr', runs_ask.mpr rfl, h, rfl⟩

/-- A run of a sequence whose first part may fail. -/
theorem runs_bind_run {x : ExceptT ε (Program R) α} {g : α → ExceptT ε (Program R) β}
    {d : Except ε β} : (x >>= g).run.Runs tr d ↔
      (∃ err, x.run.Runs tr (.error err) ∧ d = .error err) ∨
      ∃ tr₁ a tr₂, x.run.Runs tr₁ (.ok a) ∧ (g a).run.Runs tr₂ d ∧ tr = tr₁ ++ tr₂ := by
  rw [ExceptT.run_bind, runs_bind]
  constructor
  · rintro ⟨tr₁, r, tr₂, h₁, h₂, rfl⟩
    cases r with
    | error err =>
      obtain ⟨rfl, rfl⟩ := runs_pure.mp h₂
      exact .inl ⟨err, by rwa [List.append_nil], rfl⟩
    | ok a => exact .inr ⟨tr₁, a, tr₂, h₁, h₂, rfl⟩
  · rintro (⟨err, h, rfl⟩ | ⟨tr₁, a, tr₂, h₁, h₂, rfl⟩)
    · exact ⟨tr, .error err, [], h, runs_pure.mpr ⟨rfl, rfl⟩, (List.append_nil _).symm⟩
    · exact ⟨tr₁, .ok a, tr₂, h₁, h₂, rfl⟩

theorem Runs.bind {tr₁ tr₂ : List (Exchange R)} (h : p.Runs tr₁ a) (h' : (f a).Runs tr₂ c) :
    (p >>= f).Runs (tr₁ ++ tr₂) c := runs_bind.mpr ⟨tr₁, a, tr₂, h, h', rfl⟩

theorem Runs.bind_run {x : ExceptT ε (Program R) α} {g : α → ExceptT ε (Program R) β}
    {tr₁ tr₂ : List (Exchange R)} {d : Except ε β} (h : x.run.Runs tr₁ (.ok a))
    (h' : (g a).run.Runs tr₂ d) : (x >>= g).run.Runs (tr₁ ++ tr₂) d :=
  runs_bind_run.mpr (.inr ⟨tr₁, a, tr₂, h, h', rfl⟩)

/-- The exchanges determine the result. -/
theorem Runs.unique (h : p.Runs tr a) (h' : p.Runs tr b) : a = b := by
  induction h with
  | pure a =>
    cases h'
    rfl
  | request _ ih =>
    cases h' with
    | request h' => exact ih h'

/-! ## What every run ensures -/

def Ensures (p : Program R α) (Q : List (Exchange R) → α → Prop) : Prop :=
  ∀ tr a, p.Runs tr a → Q tr a

section

variable {Q Q' : List (Exchange R) → α → Prop} {P : List (Exchange R) → β → Prop}

theorem Ensures.pure (h : Q [] a) : (Pure.pure a : Program R α).Ensures Q := fun tr b hr => by
  obtain ⟨rfl, rfl⟩ := runs_pure.mp hr
  exact h

theorem Ensures.mono (h : p.Ensures Q) (hQ : ∀ tr a, Q tr a → Q' tr a) : p.Ensures Q' :=
  fun tr a hr => hQ tr a (h tr a hr)

theorem Ensures.bind (h : p.Ensures Q)
    (hf : ∀ tr a, Q tr a → (f a).Ensures fun tr' b => P (tr ++ tr') b) : (p >>= f).Ensures P := by
  intro tr b hr
  obtain ⟨tr₁, a, tr₂, h₁, h₂, rfl⟩ := runs_bind.mp hr
  exact hf tr₁ a (h tr₁ a h₁) tr₂ b h₂

/-- The same, where the first part may fail. -/
theorem Ensures.bind_run {x : ExceptT ε (Program R) α} {g : α → ExceptT ε (Program R) β}
    {Q : List (Exchange R) → Except ε α → Prop} {P : List (Exchange R) → Except ε β → Prop}
    (h : x.run.Ensures Q) (herr : ∀ tr err, Q tr (.error err) → P tr (.error err))
    (hok : ∀ tr a, Q tr (.ok a) → (g a).run.Ensures fun tr' d => P (tr ++ tr') d) :
    (x >>= g).run.Ensures P := by
  intro tr d hr
  rcases runs_bind_run.mp hr with ⟨err, h₁, rfl⟩ | ⟨tr₁, a, tr₂, h₁, h₂, rfl⟩
  · exact herr tr err (h tr _ h₁)
  · exact hok tr₁ a (h tr₁ _ h₁) tr₂ d h₂

theorem Ensures.ask_bind {g : R e → Program R β}
    (hg : ∀ r, (g r).Ensures fun tr b => P (⟨e, r⟩ :: tr) b) : (ask e >>= g).Ensures P := by
  intro tr b hr
  obtain ⟨r, tr', h, rfl⟩ := runs_ask_bind.mp hr
  exact hg r tr' b h

end

/-! ## Programs that may fail -/

theorem runs_lift {tr : List (Exchange R)} {d : Except ε α} :
    (liftM p : ExceptT ε (Program R) α).run.Runs tr d ↔ ∃ a, p.Runs tr a ∧ d = .ok a := by
  change (p >>= fun a => Pure.pure (Except.ok a) : Program R (Except ε α)).Runs tr d ↔ _
  rw [runs_bind]
  constructor
  · rintro ⟨tr₁, a, tr₂, h₁, h₂, rfl⟩
    obtain ⟨rfl, rfl⟩ := runs_pure.mp h₂
    exact ⟨a, by rwa [List.append_nil], rfl⟩
  · rintro ⟨a, h, rfl⟩
    exact ⟨tr, a, [], h, runs_pure.mpr ⟨rfl, rfl⟩, (List.append_nil _).symm⟩

/-- Every request is one of `S`, and it only fails with one of `B`. -/
def Within (S : E → Prop) (B : ε → Prop) (x : ExceptT ε (Program R) α) : Prop :=
  x.run.Ensures fun tr d => (∀ y ∈ tr, S y.1) ∧ ∀ err, d = .error err → B err

section

variable {S : E → Prop} {B : ε → Prop} {x : ExceptT ε (Program R) α}
  {g : α → ExceptT ε (Program R) β}

theorem Within.pure : Within S B (Pure.pure a : ExceptT ε (Program R) α) :=
  Ensures.pure ⟨fun _ h => (List.not_mem_nil h).elim, fun _ h => (nomatch h)⟩

theorem Within.throw {err : ε} (h : B err) :
    Within S B (throw err : ExceptT ε (Program R) α) :=
  Ensures.pure ⟨fun _ h => (List.not_mem_nil h).elim, fun _ e => Except.error.inj e ▸ h⟩

theorem Within.mono {S' : E → Prop} (h : Within S B x) (hS : ∀ e, S e → S' e) : Within S' B x :=
  Ensures.mono h fun _ _ hQ => ⟨fun y hy => hS _ (hQ.1 y hy), hQ.2⟩

theorem Within.bind (h : Within S B x) (hg : ∀ a, Within S B (g a)) : Within S B (x >>= g) := by
  refine Ensures.bind_run h (fun tr err hQ => ⟨hQ.1, fun _ e => hQ.2 _ (congrArg _ (Except.error.inj e))⟩)
    fun tr a hQ tr' d hr => ?_
  obtain ⟨htr', herr⟩ := hg a tr' d hr
  exact ⟨fun y hy => (List.mem_append.mp hy).elim (hQ.1 y) (htr' y), herr⟩

/-- A part that cannot fail. -/
theorem Within.lift (h : p.Ensures fun tr _ => ∀ y ∈ tr, S y.1) :
    Within S B (liftM p : ExceptT ε (Program R) α) := by
  intro tr d hr
  obtain ⟨a, h', rfl⟩ := runs_lift.mp hr
  exact ⟨h tr a h', fun _ e => nomatch e⟩

theorem Within.ask (h : S e) : Within S B (liftM (ask e) : ExceptT ε (Program R) (R e)) :=
  Within.lift fun tr r hr => by
    rw [runs_ask.mp hr]
    exact fun y hy => List.mem_singleton.mp hy ▸ h

end

/-! ## What comes before an exchange -/

/-- Each exchange of a trace has `P` of those before it. -/
def Throughout (P : List (Exchange R) → Exchange R → Prop) (tr : List (Exchange R)) : Prop :=
  ∀ pre x post, tr = pre ++ x :: post → P pre x

section

variable {P : List (Exchange R) → Exchange R → Prop} {x : Exchange R} {tr' : List (Exchange R)}

theorem throughout_nil : Throughout P [] := fun _ _ _ h =>
  absurd h.symm (List.append_ne_nil_of_right_ne_nil _ (List.cons_ne_nil _ _))

theorem throughout_cons :
    Throughout P (x :: tr) ↔ P [] x ∧ Throughout (fun pre => P (x :: pre)) tr := by
  constructor
  · exact fun h => ⟨h [] x tr rfl, fun pre y post e => h (x :: pre) y post (by rw [e]; rfl)⟩
  · rintro ⟨hx, h⟩ pre y post e
    cases pre with
    | nil =>
      cases e
      exact hx
    | cons z pre =>
      cases e
      exact h pre y post rfl

/-- Where `P` only looks at what comes right before. -/
theorem Throughout.append (hP : ∀ pre pre' x, P pre' x → P (pre ++ pre') x)
    (h : Throughout P tr) (h' : Throughout P tr') : Throughout P (tr ++ tr') := by
  intro pre y post e
  rcases List.append_eq_append_iff.mp e with ⟨pre', rfl, e'⟩ | ⟨post', rfl, e'⟩
  · exact hP tr pre' y (h' pre' y post e')
  · cases post' with
    | nil =>
      have hy := hP pre [] y (h' [] y post e'.symm)
      rwa [List.append_nil] at hy
    | cons z post' =>
      cases e'
      exact h pre y post' rfl

end

/-! ## A run with given replies -/

/-- The run in which the `n`-th request from now on has the reply `answer n`. -/
def play (answer : Nat → (e : E) → R e) : Nat → Program R α → List (Exchange R) × α
  | _, pure a => ([], a)
  | n, request e k =>
    let (tr, a) := play answer (n + 1) (k (answer n e))
    (⟨e, answer n e⟩ :: tr, a)

theorem runs_play (answer : Nat → (e : E) → R e) (n : Nat) (p : Program R α) :
    p.Runs (play answer n p).1 (play answer n p).2 := by
  induction p generalizing n with
  | pure a => exact .pure a
  | request e k ih => exact .request (ih (answer n e) (n + 1))

/-! ## What is left of a program -/

/-- After the exchanges, the first program has the second left. -/
inductive Reaches : Program R α → List (Exchange R) → Program R α → Prop
  | refl (p : Program R α) : Reaches p [] p
  | request {e : E} {k : R e → Program R α} {r : R e} {tr : List (Exchange R)} {q : Program R α} :
    Reaches (k r) tr q → Reaches (request e k) (⟨e, r⟩ :: tr) q

section

variable {q : Program R α} {k : R e → Program R α} {tr' : List (Exchange R)}

theorem Reaches.snoc (h : p.Reaches tr (.request e k)) (r : R e) :
    p.Reaches (tr ++ [⟨e, r⟩]) (k r) := by
  generalize hq : Program.request e k = q at h
  induction h with
  | refl p =>
    subst hq
    exact .request (.refl _)
  | request _ ih => exact .request (ih hq)

theorem Reaches.runs (h : p.Reaches tr q) (h' : q.Runs tr' a) : p.Runs (tr ++ tr') a := by
  induction h with
  | refl => exact h'
  | request _ ih => exact .request (ih h')

theorem Reaches.done (h : p.Reaches tr (pure a)) : p.Runs tr a := by
  have hr := h.runs (.pure a)
  rwa [List.append_nil] at hr

theorem reaches_of_runs (h : p.Runs tr a) : p.Reaches tr (.pure a) := by
  induction h with
  | pure a => exact .refl _
  | request _ ih => exact .request ih

theorem Reaches.trans {q' : Program R α} (h : p.Reaches tr q) (h' : q.Reaches tr' q') :
    p.Reaches (tr ++ tr') q' := by
  induction h with
  | refl => exact h'
  | request _ ih => exact .request (ih h')

theorem Reaches.bind (h : p.Reaches tr q) (f : α → Program R β) :
    (p.bind f).Reaches tr (q.bind f) := by
  induction h with
  | refl p => exact .refl _
  | request _ ih => exact .request ih

end

/-- With a reply for each request, every program has a run. -/
theorem exists_runs (answer : (e : E) → R e) (p : Program R α) : ∃ tr a, p.Runs tr a :=
  ⟨_, _, runs_play (fun _ => answer) 0 p⟩

/-- A request on the way is in the trace of some run. -/
theorem Reaches.request_mem {k : R e → Program R α} (h : p.Reaches tr (.request e k))
    (answer : (e : E) → R e) (r : R e) :
    ∃ tr' a, p.Runs tr' a ∧ ⟨e, r⟩ ∈ tr' := by
  obtain ⟨tr', a, hr⟩ := exists_runs answer (k r)
  exact ⟨_, a, (h.snoc r).runs hr,
    List.mem_append_left _ (List.mem_append_right _ List.mem_cons_self)⟩

end Program

end MikanJudge.Lib
