/-!
# Actions that log

A `Probe` reads a state, may fail, and logs what it does on the way; an `Exec`
may change the state as well.  The log is there even when the action fails.
What an action returns (`Returns`) and what it logs (`Emits`) are told apart,
each with its rule for `bind`; `Ensures` asks for both, and its rules turn an
action into the condition under which it meets them.

A run takes one step after the other (`Run`); what holds at the start and is
kept by every step holds after the run (`Run.invariant`).
-/

/-- An action that reads the state `σ`, fails with `ε` and logs `ω`. -/
def Probe (ε ω σ α : Type) := σ → List ω × Except ε α

/-- An action that may also change the state. -/
def Exec (ε ω σ α : Type) := σ → List ω × Except ε (α × σ)

/-! ## Reading -/

namespace Probe

variable {ε ω σ α β : Type}

protected def pure (a : α) : Probe ε ω σ α := fun _ => ([], .ok a)

protected def bind (x : Probe ε ω σ α) (f : α → Probe ε ω σ β) : Probe ε ω σ β := fun s =>
  match x s with
  | (log, .ok a) => (log ++ (f a s).1, (f a s).2)
  | (log, .error e) => (log, .error e)

instance : Monad (Probe ε ω σ) where
  pure := Probe.pure
  bind := Probe.bind

/-- A part of the state. -/
def read (f : σ → α) : Probe ε ω σ α := fun s => ([], .ok (f s))

/-- A result that may be a failure, computed from the state. -/
def ofExcept (f : σ → Except ε α) : Probe ε ω σ α := fun s => ([], f s)

def log (es : List ω) : Probe ε ω σ Unit := fun _ => (es, .ok ())

def Returns (x : Probe ε ω σ α) (s : σ) (a : α) : Prop := (x s).2 = .ok a

instance [DecidableEq α] (x : Probe ε ω σ α) (s : σ) (a : α) : Decidable (x.Returns s a) :=
  match h : (x s).2 with
  | .ok b => decidable_of_iff (b = a) ⟨fun hb => hb ▸ h, fun ha => Except.ok.inj (h.symm.trans ha)⟩
  | .error _ => isFalse fun ha => nomatch h.symm.trans ha

/-- Everything the action logs has the property. -/
structure Emits (P : ω → Prop) (x : Probe ε ω σ α) (s : σ) : Prop where
  all : ∀ e ∈ (x s).1, P e

variable {P : ω → Prop} {s : σ}

@[simp] theorem returns_pure {a b : α} : (pure a : Probe ε ω σ α).Returns s b ↔ a = b :=
  ⟨Except.ok.inj, congrArg Except.ok⟩

@[simp] theorem returns_read {f : σ → α} {b : α} :
    (read f : Probe ε ω σ α).Returns s b ↔ f s = b :=
  ⟨Except.ok.inj, congrArg Except.ok⟩

@[simp] theorem returns_ofExcept {f : σ → Except ε α} {b : α} :
    (ofExcept f : Probe ε ω σ α).Returns s b ↔ f s = .ok b := Iff.rfl

@[simp] theorem returns_log {es : List ω} {u : Unit} :
    (log es : Probe ε ω σ Unit).Returns s u := rfl

/-- A probe returns one value at most. -/
theorem Returns.unique {x : Probe ε ω σ α} {a b : α} (ha : x.Returns s a) (hb : x.Returns s b) :
    a = b := Except.ok.inj (ha.symm.trans hb)

@[simp] theorem returns_bind {x : Probe ε ω σ α} {f : α → Probe ε ω σ β} {b : β} :
    (x >>= f).Returns s b ↔ ∃ a, x.Returns s a ∧ (f a).Returns s b := by
  change (Probe.bind x f s).2 = .ok b ↔ ∃ a, (x s).2 = .ok a ∧ (f a s).2 = .ok b
  unfold Probe.bind
  rcases x s with ⟨log, e | a⟩
  · constructor
    · intro h
      cases h
    · rintro ⟨a, h, -⟩
      cases h
  · constructor
    · exact fun h => ⟨a, rfl, h⟩
    · rintro ⟨a', h, hb⟩
      cases h
      exact hb

theorem exists_returns_bind {x : Probe ε ω σ α} {f : α → Probe ε ω σ β}
    (hx : ∃ a, x.Returns s a) (hf : ∀ a, ∃ b, (f a).Returns s b) : ∃ b, (x >>= f).Returns s b := by
  obtain ⟨a, ha⟩ := hx
  obtain ⟨b, hb⟩ := hf a
  exact ⟨b, returns_bind.mpr ⟨a, ha, hb⟩⟩

/-- A first action that returns hands over to the second. -/
theorem run_bind {x : Probe ε ω σ α} {f : α → Probe ε ω σ β} {a : α} (h : x.Returns s a) :
    (x >>= f) s = ((x s).1 ++ (f a s).1, (f a s).2) := by
  change Probe.bind x f s = _
  unfold Probe.bind
  rw [show x s = ((x s).1, .ok a) from Prod.ext rfl h]

theorem log_bind {x : Probe ε ω σ α} {f : α → Probe ε ω σ β} {a : α} (h : x.Returns s a) :
    ((x >>= f) s).1 = (x s).1 ++ (f a s).1 := by rw [run_bind h]

theorem result_bind {x : Probe ε ω σ α} {f : α → Probe ε ω σ β} {a : α} (h : x.Returns s a) :
    ((x >>= f) s).2 = (f a s).2 := by rw [run_bind h]

/-- What follows an action that fails is not logged. -/
theorem log_bind_fails {x : Probe ε ω σ α} {f : α → Probe ε ω σ β}
    (h : ∀ a, ¬ x.Returns s a) : ((x >>= f) s).1 = (x s).1 := by
  change (Probe.bind x f s).1 = _
  unfold Probe.bind
  cases hx : x s with
  | mk log r =>
    cases r with
    | ok a => exact absurd (congrArg Prod.snd hx) (h a)
    | error e => rfl

theorem run_bind_fails {x : Probe ε ω σ α} {f : α → Probe ε ω σ β} {es : List ω} {e : ε}
    (h : x s = (es, .error e)) : (x >>= f) s = (es, .error e) := by
  change Probe.bind x f s = _
  unfold Probe.bind
  rw [h]

/-- After the same first step two runs are equal when the rest of them is. -/
theorem bind_congr_iff {x : Probe ε ω σ α} {f g : α → Probe ε ω σ β} :
    (x >>= f) s = (x >>= g) s ↔ ∀ a, x.Returns s a → f a s = g a s := by
  change Probe.bind x f s = Probe.bind x g s ↔ ∀ a, (x s).2 = .ok a → f a s = g a s
  unfold Probe.bind
  rcases x s with ⟨log, e | a⟩
  · exact iff_of_true rfl nofun
  · constructor
    · intro h b hb
      cases hb
      obtain ⟨hlog, hresult⟩ := Prod.mk.inj h
      exact Prod.ext (List.append_cancel_left hlog) hresult
    · exact fun h => congrArg (fun r : List ω × Except ε β => (log ++ r.1, r.2)) (h a rfl)

/-- First steps that log equally much. -/
theorem bind_eq_bind_iff {γ : Type} {x : Probe ε ω σ α} {y : Probe ε ω σ γ}
    {f : α → Probe ε ω σ β} {g : γ → Probe ε ω σ β} {es es' : List ω} {a : α} {b : γ}
    (hx : x s = (es, .ok a)) (hy : y s = (es', .ok b)) (hlen : es.length = es'.length) :
    (x >>= f) s = (y >>= g) s ↔ es = es' ∧ f a s = g b s := by
  rw [run_bind (congrArg Prod.snd hx), run_bind (congrArg Prod.snd hy), hx, hy]
  constructor
  · intro h
    obtain ⟨hlog, hresult⟩ := Prod.mk.inj h
    obtain ⟨hes, hrest⟩ := List.append_inj hlog hlen
    exact ⟨hes, Prod.ext hrest hresult⟩
  · rintro ⟨rfl, h⟩
    rw [h]

@[simp] theorem emits_pure {a : α} : (pure a : Probe ε ω σ α).Emits P s := ⟨nofun⟩

@[simp] theorem emits_read {f : σ → α} : (read f : Probe ε ω σ α).Emits P s := ⟨nofun⟩

@[simp] theorem emits_ofExcept {f : σ → Except ε α} :
    (ofExcept f : Probe ε ω σ α).Emits P s := ⟨nofun⟩

@[simp] theorem emits_log {es : List ω} :
    (log es : Probe ε ω σ Unit).Emits P s ↔ ∀ e ∈ es, P e :=
  ⟨fun h => h.all, fun h => ⟨h⟩⟩

@[simp] theorem emits_bind {x : Probe ε ω σ α} {f : α → Probe ε ω σ β} :
    (x >>= f).Emits P s ↔ x.Emits P s ∧ ∀ a, x.Returns s a → (f a).Emits P s := by
  have hall : (∀ e ∈ (Probe.bind x f s).1, P e) ↔
      (∀ e ∈ (x s).1, P e) ∧ ∀ a, (x s).2 = .ok a → ∀ e ∈ (f a s).1, P e := by
    unfold Probe.bind
    rcases x s with ⟨log, e | a⟩
    · exact ⟨fun h => ⟨h, nofun⟩, And.left⟩
    · constructor
      · intro h
        refine ⟨fun e he => h e (List.mem_append_left _ he), ?_⟩
        intro a' ha e he
        cases ha
        exact h e (List.mem_append_right _ he)
      · rintro ⟨hx, hf⟩ e he
        rcases List.mem_append.mp he with he | he
        · exact hx e he
        · exact hf a rfl e he
  constructor
  · intro h
    have h := hall.mp h.all
    exact ⟨⟨h.1⟩, fun a ha => ⟨h.2 a ha⟩⟩
  · exact fun h => ⟨hall.mpr ⟨h.1.all, fun a ha => (h.2 a ha).all⟩⟩

/-! ### Postconditions -/

variable {Q : α → Prop}

/-- What the action logs has the property `P`, and what it returns has the property `Q`. -/
def Ensures (P : ω → Prop) (x : Probe ε ω σ α) (s : σ) (Q : α → Prop) : Prop :=
  x.Emits P s ∧ ∀ a, x.Returns s a → Q a

theorem ensures_true {x : Probe ε ω σ α} : x.Ensures P s (fun _ => True) ↔ x.Emits P s :=
  ⟨And.left, fun h => ⟨h, fun _ _ => trivial⟩⟩

@[simp] theorem ensures_pure {a : α} : (pure a : Probe ε ω σ α).Ensures P s Q ↔ Q a := by
  simp [Ensures]

@[simp] theorem ensures_read {f : σ → α} :
    (read f : Probe ε ω σ α).Ensures P s Q ↔ Q (f s) := by
  simp [Ensures]

@[simp] theorem ensures_ofExcept {f : σ → Except ε α} :
    (ofExcept f : Probe ε ω σ α).Ensures P s Q ↔ ∀ a, f s = .ok a → Q a := by
  simp [Ensures]

@[simp] theorem ensures_log {es : List ω} {Q : Unit → Prop} :
    (log es : Probe ε ω σ Unit).Ensures P s Q ↔ (∀ e ∈ es, P e) ∧ Q () :=
  and_congr emits_log ⟨fun h => h () rfl, fun h _ _ => h⟩

@[simp] theorem ensures_bind {x : Probe ε ω σ α} {f : α → Probe ε ω σ β} {R : β → Prop} :
    (x >>= f).Ensures P s R ↔ x.Ensures P s fun a => (f a).Ensures P s R := by
  unfold Ensures
  rw [emits_bind]
  simp only [returns_bind]
  constructor
  · rintro ⟨⟨hx, hf⟩, hR⟩
    exact ⟨hx, fun a ha => ⟨hf a ha, fun b hb => hR b ⟨a, ha, hb⟩⟩⟩
  · rintro ⟨hx, hf⟩
    exact ⟨⟨hx, fun a ha => (hf a ha).1⟩, fun b ⟨a, ha, hb⟩ => (hf a ha).2 b hb⟩

end Probe

/-! ## Changing the state -/

namespace Exec

variable {ε ω σ α β : Type}

protected def pure (a : α) : Exec ε ω σ α := fun s => ([], .ok (a, s))

protected def bind (x : Exec ε ω σ α) (f : α → Exec ε ω σ β) : Exec ε ω σ β := fun s =>
  match x s with
  | (log, .ok (a, s')) => (log ++ (f a s').1, (f a s').2)
  | (log, .error e) => (log, .error e)

instance : Monad (Exec ε ω σ) where
  pure := Exec.pure
  bind := Exec.bind

/-- A probe as an action that leaves the state alone. -/
def probe (x : Probe ε ω σ α) : Exec ε ω σ α := fun s => ((x s).1, (x s).2.map fun a => (a, s))

instance : MonadLift (Probe ε ω σ) (Exec ε ω σ) := ⟨probe⟩

@[simp] theorem liftM_eq_probe (x : Probe ε ω σ α) : (liftM x : Exec ε ω σ α) = probe x := rfl

def modify (f : σ → σ) : Exec ε ω σ Unit := fun s => ([], .ok ((), f s))

/-- An action under a condition. -/
def when (c : Prop) [Decidable c] (x : Exec ε ω σ Unit) : Exec ε ω σ Unit :=
  if c then x else pure ()

def Returns (x : Exec ε ω σ α) (s : σ) (a : α) (s' : σ) : Prop := (x s).2 = .ok (a, s')

/-- Everything the action logs has the property. -/
structure Emits (P : ω → Prop) (x : Exec ε ω σ α) (s : σ) : Prop where
  all : ∀ e ∈ (x s).1, P e

variable {P : ω → Prop} {s s' : σ}

@[simp] theorem returns_pure {a b : α} :
    (pure a : Exec ε ω σ α).Returns s b s' ↔ a = b ∧ s = s' := by
  constructor
  · intro h
    cases h
    exact ⟨rfl, rfl⟩
  · rintro ⟨rfl, rfl⟩
    rfl

@[simp] theorem returns_modify {f : σ → σ} {u : Unit} :
    (modify f : Exec ε ω σ Unit).Returns s u s' ↔ f s = s' := by
  constructor
  · intro h
    cases h
    rfl
  · rintro rfl
    rfl

@[simp] theorem returns_when {c : Prop} [Decidable c] {x : Exec ε ω σ Unit} {u : Unit} :
    (when c x).Returns s u s' ↔ if c then x.Returns s u s' else s = s' := by
  unfold when
  split
  · exact Iff.rfl
  · exact returns_pure.trans (and_iff_right rfl)

@[simp] theorem returns_probe {x : Probe ε ω σ α} {a : α} :
    (probe x).Returns s a s' ↔ x.Returns s a ∧ s = s' := by
  change (x s).2.map (fun a => (a, s)) = .ok (a, s') ↔ (x s).2 = .ok a ∧ s = s'
  rcases (x s).2 with e | b
  · constructor
    · intro h
      cases h
    · rintro ⟨h, -⟩
      cases h
  · constructor
    · intro h
      cases h
      exact ⟨rfl, rfl⟩
    · rintro ⟨h, rfl⟩
      cases h
      rfl

@[simp] theorem returns_bind {x : Exec ε ω σ α} {f : α → Exec ε ω σ β} {b : β} :
    (x >>= f).Returns s b s' ↔ ∃ a t, x.Returns s a t ∧ (f a).Returns t b s' := by
  change (Exec.bind x f s).2 = .ok (b, s') ↔ ∃ a t, (x s).2 = .ok (a, t) ∧ (f a t).2 = .ok (b, s')
  unfold Exec.bind
  rcases x s with ⟨log, e | ⟨a, t⟩⟩
  · constructor
    · intro h
      cases h
    · rintro ⟨a, t, h, -⟩
      cases h
  · constructor
    · exact fun h => ⟨a, t, rfl, h⟩
    · rintro ⟨a', t', h, hb⟩
      cases h
      exact hb

/-- A probe leaves the state to what follows. -/
theorem returns_probe_bind {x : Probe ε ω σ α} {f : α → Exec ε ω σ β} {a : α} {b : β}
    (h : x.Returns s a) : (probe x >>= f).Returns s b s' ↔ (f a).Returns s b s' := by
  simp only [returns_bind, returns_probe]
  constructor
  · rintro ⟨a', _, ⟨ha', rfl⟩, hb⟩
    rw [h.unique ha']
    exact hb
  · exact fun hb => ⟨a, s, ⟨h, rfl⟩, hb⟩

theorem returns_read_bind {γ : Type} {g : σ → γ} {f : γ → Exec ε ω σ β} {b : β} :
    (probe (Probe.read g) >>= f).Returns s b s' ↔ (f (g s)).Returns s b s' :=
  returns_probe_bind rfl

theorem returns_modify_bind {g : σ → σ} {f : Unit → Exec ε ω σ β} {b : β} :
    (modify g >>= f).Returns s b s' ↔ (f ()).Returns (g s) b s' := by
  simp only [returns_bind, returns_modify]
  constructor
  · rintro ⟨_, _, rfl, h⟩
    exact h
  · exact fun h => ⟨(), _, rfl, h⟩

/-! ### Runs of actions -/

/-- An action that logs nothing hands over to the next one. -/
theorem run_bind {x : Exec ε ω σ α} {f : α → Exec ε ω σ β} {a : α} (h : x s = ([], .ok (a, s'))) :
    (x >>= f) s = f a s' := by
  change Exec.bind x f s = _
  unfold Exec.bind
  rw [h]
  rfl

theorem run_bind_log {x : Exec ε ω σ α} {f : α → Exec ε ω σ β} {es : List ω} {a : α}
    (h : x s = (es, .ok (a, s'))) : (x >>= f) s = (es ++ (f a s').1, (f a s').2) := by
  change Exec.bind x f s = _
  unfold Exec.bind
  rw [h]

theorem run_bind_fails {x : Exec ε ω σ α} {f : α → Exec ε ω σ β} {es : List ω} {e : ε}
    (h : x s = (es, .error e)) : (x >>= f) s = (es, .error e) := by
  change Exec.bind x f s = _
  unfold Exec.bind
  rw [h]

/-- After the same first step two runs are equal when the rest of them is. -/
theorem bind_congr_iff {x : Exec ε ω σ α} {f g : α → Exec ε ω σ β} :
    (x >>= f) s = (x >>= g) s ↔ ∀ a t, x.Returns s a t → f a t = g a t := by
  change Exec.bind x f s = Exec.bind x g s ↔ ∀ a t, (x s).2 = .ok (a, t) → f a t = g a t
  unfold Exec.bind
  rcases x s with ⟨log, e | ⟨a, t⟩⟩
  · exact iff_of_true rfl nofun
  · constructor
    · intro h b t' hb
      cases hb
      obtain ⟨hlog, hresult⟩ := Prod.mk.inj h
      exact Prod.ext (List.append_cancel_left hlog) hresult
    · exact fun h => congrArg (fun r : List ω × Except ε (β × σ) => (log ++ r.1, r.2)) (h a t rfl)

/-- First steps that log equally much. -/
theorem bind_eq_bind_iff {γ : Type} {x : Exec ε ω σ α} {y : Exec ε ω σ γ}
    {f : α → Exec ε ω σ β} {g : γ → Exec ε ω σ β} {es es' : List ω} {a : α} {b : γ} {t t' : σ}
    (hx : x s = (es, .ok (a, t))) (hy : y s = (es', .ok (b, t')))
    (hlen : es.length = es'.length) :
    (x >>= f) s = (y >>= g) s ↔ es = es' ∧ f a t = g b t' := by
  rw [run_bind_log hx, run_bind_log hy]
  constructor
  · intro h
    obtain ⟨hlog, hresult⟩ := Prod.mk.inj h
    obtain ⟨hes, hrest⟩ := List.append_inj hlog hlen
    exact ⟨hes, Prod.ext hrest hresult⟩
  · rintro ⟨rfl, h⟩
    rw [h]

theorem run_pure_bind {a : α} {f : α → Exec ε ω σ β} : (pure a >>= f) s = f a s := rfl

theorem run_read_bind {g : σ → α} {f : α → Exec ε ω σ β} :
    (probe (Probe.read g) >>= f) s = f (g s) s := rfl

/-- The action returns, and this is what it logs on the way. -/
def Runs (x : Exec ε ω σ α) (s : σ) (es : List ω) (a : α) (s' : σ) : Prop := x s = (es, .ok (a, s'))

theorem Runs.returns {x : Exec ε ω σ α} {es : List ω} {a : α} (h : x.Runs s es a s') :
    x.Returns s a s' := congrArg Prod.snd h

theorem Returns.runs {x : Exec ε ω σ α} {a : α} (h : x.Returns s a s') :
    x.Runs s (x s).1 a s' := Prod.ext rfl h

@[simp] theorem runs_pure {es : List ω} {a b : α} :
    (pure a : Exec ε ω σ α).Runs s es b s' ↔ es = [] ∧ a = b ∧ s = s' := by
  constructor
  · intro h
    cases h
    exact ⟨rfl, rfl, rfl⟩
  · rintro ⟨rfl, rfl, rfl⟩
    rfl

theorem runs_bind {x : Exec ε ω σ α} {f : α → Exec ε ω σ β} {es : List ω} {b : β} :
    (x >>= f).Runs s es b s' ↔
      ∃ es₁ a t es₂, x.Runs s es₁ a t ∧ (f a).Runs t es₂ b s' ∧ es = es₁ ++ es₂ := by
  constructor
  · intro h
    cases hx : x s with
    | mk es₁ r =>
      cases r with
      | error e =>
        unfold Runs at h
        rw [run_bind_fails hx] at h
        cases h
      | ok at' =>
        obtain ⟨a, t⟩ := at'
        unfold Runs at h
        rw [run_bind_log hx] at h
        have hf : (f a t).2 = .ok (b, s') := congrArg Prod.snd h
        exact ⟨es₁, a, t, (f a t).1, hx, Prod.ext rfl hf, (congrArg Prod.fst h).symm⟩
  · rintro ⟨es₁, a, t, es₂, hx, hf, rfl⟩
    unfold Runs
    rw [run_bind_log hx, hf]

/-- After an action whose run is known. -/
theorem runs_bind_of {x : Exec ε ω σ α} {f : α → Exec ε ω σ β} {es₁ es : List ω} {a : α} {t : σ}
    {b : β} (h : x s = (es₁, .ok (a, t))) : (x >>= f).Runs s es b s' ↔
      ∃ es₂, (f a).Runs t es₂ b s' ∧ es = es₁ ++ es₂ := by
  constructor
  · intro hf
    unfold Runs at hf
    rw [run_bind_log h] at hf
    have hresult : (f a t).2 = .ok (b, s') := congrArg Prod.snd hf
    exact ⟨(f a t).1, Prod.ext rfl hresult, (congrArg Prod.fst hf).symm⟩
  · rintro ⟨es₂, hf, rfl⟩
    unfold Runs
    rw [run_bind_log h, hf]

theorem runs_bind_nil {x : Exec ε ω σ α} {f : α → Exec ε ω σ β} {es : List ω} {a : α} {t : σ}
    {b : β} (h : x s = ([], .ok (a, t))) :
    (x >>= f).Runs s es b s' ↔ (f a).Runs t es b s' := by
  unfold Runs
  rw [run_bind h]

/-- What a run gives is all that the action returns. -/
theorem returns_of_run {x : Exec ε ω σ α} {es : List ω} {a b : α} {t : σ}
    (h : x s = (es, .ok (a, t))) : x.Returns s b s' ↔ a = b ∧ t = s' := by
  unfold Returns
  rw [h]
  constructor
  · intro hb
    cases hb
    exact ⟨rfl, rfl⟩
  · rintro ⟨rfl, rfl⟩
    rfl

theorem Returns.unique {x : Exec ε ω σ α} {a b : α} {t : σ} (ha : x.Returns s a s')
    (hb : x.Returns s b t) : a = b ∧ s' = t := by
  cases ha.symm.trans hb
  exact ⟨rfl, rfl⟩

@[simp] theorem emits_pure {a : α} : (pure a : Exec ε ω σ α).Emits P s := ⟨nofun⟩

@[simp] theorem emits_modify {f : σ → σ} : (modify f : Exec ε ω σ Unit).Emits P s := ⟨nofun⟩

@[simp] theorem emits_when {c : Prop} [Decidable c] {x : Exec ε ω σ Unit} :
    (when c x).Emits P s ↔ (c → x.Emits P s) := by
  unfold when
  split
  · next h => exact ⟨fun hx _ => hx, fun hx => hx h⟩
  · next h => exact ⟨fun _ hc => absurd hc h, fun _ => emits_pure⟩

@[simp] theorem emits_probe {x : Probe ε ω σ α} : (probe x).Emits P s ↔ x.Emits P s :=
  ⟨fun h => ⟨h.all⟩, fun h => ⟨h.all⟩⟩

@[simp] theorem emits_bind {x : Exec ε ω σ α} {f : α → Exec ε ω σ β} :
    (x >>= f).Emits P s ↔ x.Emits P s ∧ ∀ a t, x.Returns s a t → (f a).Emits P t := by
  have hall : (∀ e ∈ (Exec.bind x f s).1, P e) ↔
      (∀ e ∈ (x s).1, P e) ∧ ∀ a t, (x s).2 = .ok (a, t) → ∀ e ∈ (f a t).1, P e := by
    unfold Exec.bind
    rcases x s with ⟨log, e | ⟨a, t⟩⟩
    · exact ⟨fun h => ⟨h, nofun⟩, And.left⟩
    · constructor
      · intro h
        refine ⟨fun e he => h e (List.mem_append_left _ he), ?_⟩
        intro a' t' ha e he
        cases ha
        exact h e (List.mem_append_right _ he)
      · rintro ⟨hx, hf⟩ e he
        rcases List.mem_append.mp he with he | he
        · exact hx e he
        · exact hf a t rfl e he
  constructor
  · intro h
    have h := hall.mp h.all
    exact ⟨⟨h.1⟩, fun a t ha => ⟨h.2 a t ha⟩⟩
  · exact fun h => ⟨hall.mpr ⟨h.1.all, fun a t ha => (h.2 a t ha).all⟩⟩

/-! ### Postconditions -/

variable {Q : α → σ → Prop}

/-- What the action logs has the property `P`; what it returns, with the state it leaves, has the
property `Q`. -/
def Ensures (P : ω → Prop) (x : Exec ε ω σ α) (s : σ) (Q : α → σ → Prop) : Prop :=
  x.Emits P s ∧ ∀ a t, x.Returns s a t → Q a t

theorem ensures_true {x : Exec ε ω σ α} : x.Ensures P s (fun _ _ => True) ↔ x.Emits P s :=
  ⟨And.left, fun h => ⟨h, fun _ _ _ => trivial⟩⟩

@[simp] theorem ensures_pure {a : α} : (pure a : Exec ε ω σ α).Ensures P s Q ↔ Q a s := by
  simp [Ensures]

@[simp] theorem ensures_modify {f : σ → σ} {Q : Unit → σ → Prop} :
    (modify f : Exec ε ω σ Unit).Ensures P s Q ↔ Q () (f s) := by
  constructor
  · exact fun h => h.2 () _ rfl
  · intro h
    refine ⟨emits_modify, fun _ t ht => ?_⟩
    rwa [← returns_modify.mp ht]

@[simp] theorem ensures_probe {x : Probe ε ω σ α} :
    (probe x).Ensures P s Q ↔ x.Ensures P s fun a => Q a s := by
  simp [Ensures, Probe.Ensures]

@[simp] theorem ensures_when {c : Prop} [Decidable c] {x : Exec ε ω σ Unit}
    {Q : Unit → σ → Prop} :
    (when c x).Ensures P s Q ↔ (c → x.Ensures P s Q) ∧ (¬ c → Q () s) := by
  unfold when
  split
  · next h => simp [h]
  · next h => simp [h]

@[simp] theorem ensures_bind {x : Exec ε ω σ α} {f : α → Exec ε ω σ β} {R : β → σ → Prop} :
    (x >>= f).Ensures P s R ↔ x.Ensures P s fun a t => (f a).Ensures P t R := by
  unfold Ensures
  rw [emits_bind]
  simp only [returns_bind]
  constructor
  · rintro ⟨⟨hx, hf⟩, hR⟩
    exact ⟨hx, fun a t ha => ⟨hf a t ha, fun b t' hb => hR b t' ⟨a, t, ha, hb⟩⟩⟩
  · rintro ⟨hx, hf⟩
    exact ⟨⟨hx, fun a t ha => (hf a t ha).1⟩, fun b t' ⟨a, t, ha, hb⟩ => (hf a t ha).2 b t' hb⟩

/-- Whether an action returns a value is found out by running it. -/
instance [DecidableEq α] (x : Exec ε ω σ α) (s : σ) (a : α) :
    Decidable (∃ s', x.Returns s a s') :=
  match h : (x s).2 with
  | .ok (b, t) => decidable_of_iff (b = a)
      ⟨fun hb => ⟨t, hb ▸ h⟩, fun ⟨_, ha⟩ => (Prod.mk.inj (Except.ok.inj (h.symm.trans ha))).1⟩
  | .error _ => isFalse fun ⟨_, ha⟩ => nomatch h.symm.trans ha

/-! ### Total correctness -/

variable {I J K : σ → Prop}

/-- From any state with the property `I` the action returns the value, in a state with the property
`J`, and everything it logs on the way has the property `P`. -/
def Leads (P : ω → Prop) (I : σ → Prop) (x : Exec ε ω σ α) (a : α) (J : σ → Prop) : Prop :=
  ∀ s, I s → ∃ es s', x.Runs s es a s' ∧ J s' ∧ ∀ e ∈ es, P e

theorem leads_pure {a : α} (h : ∀ s, I s → J s) : Leads P I (pure a : Exec ε ω σ α) a J :=
  fun s hs => ⟨[], s, rfl, h s hs, nofun⟩

theorem Leads.bind {x : Exec ε ω σ α} {f : α → Exec ε ω σ β} {a : α} {b : β}
    (hx : Leads P I x a J) (hf : Leads P J (f a) b K) : Leads P I (x >>= f) b K := by
  intro s hs
  obtain ⟨es, t, hxa, ht, hes⟩ := hx s hs
  obtain ⟨es', s', hfb, hs', hes'⟩ := hf t ht
  refine ⟨es ++ es', s', runs_bind.mpr ⟨es, a, t, es', hxa, hfb, rfl⟩, hs', ?_⟩
  exact List.forall_mem_append.mpr ⟨hes, hes'⟩

theorem Leads.returns {x : Exec ε ω σ α} {a : α} (h : Leads P I x a J) (hs : I s) :
    ∃ s', x.Returns s a s' ∧ J s' := by
  obtain ⟨es, s', hrun, hs', -⟩ := h s hs
  exact ⟨s', hrun.returns, hs'⟩

/-- What follows the action starts where it leads to. -/
theorem Leads.run_bind {x : Exec ε ω σ α} {f : α → Exec ε ω σ β} {a : α}
    (hx : Leads P I x a J) (hs : I s) :
    ∃ es t, (x >>= f) s = (es ++ (f a t).1, (f a t).2) ∧ J t ∧ ∀ e ∈ es, P e := by
  obtain ⟨es, t, hrun, ht, hes⟩ := hx s hs
  exact ⟨es, t, run_bind_log hrun, ht, hes⟩

theorem Leads.returns_bind {x : Exec ε ω σ α} {f : α → Exec ε ω σ β} {a : α} {b : β}
    (hx : Leads P I x a J) (hs : I s) (h : (x >>= f).Returns s b s') :
    ∃ t, J t ∧ (f a).Returns t b s' := by
  obtain ⟨es, t, hrun, ht, -⟩ := hx.run_bind (f := f) hs
  unfold Returns at h
  rw [hrun] at h
  exact ⟨t, ht, h⟩

theorem Leads.emits_bind {P' : ω → Prop} {x : Exec ε ω σ α} {f : α → Exec ε ω σ β} {a : α}
    (hx : Leads P I x a J) (hs : I s) (h : (x >>= f).Emits P' s) :
    ∃ t, J t ∧ (f a).Emits P' t := by
  obtain ⟨t, hxa, ht⟩ := hx.returns hs
  exact ⟨t, ht, (Exec.emits_bind.mp h).2 a t hxa⟩

/-- From this state the action goes on as the other one does from some state with the property. -/
def Continues (s : σ) (x : Exec ε ω σ α) (K : σ → Prop) (y : Exec ε ω σ α) : Prop :=
  ∃ t, K t ∧ ∀ a s', x.Returns s a s' ↔ y.Returns t a s'

theorem continues_self {x : Exec ε ω σ α} (h : K s) : Continues s x K x :=
  ⟨s, h, fun _ _ => Iff.rfl⟩

theorem Continues.trans {x y z : Exec ε ω σ α} (hx : Continues s x J y)
    (hy : ∀ t, J t → Continues t y K z) : Continues s x K z := by
  obtain ⟨t, ht, hxy⟩ := hx
  obtain ⟨t', ht', hyz⟩ := hy t ht
  exact ⟨t', ht', fun a s' => (hxy a s').trans (hyz a s')⟩

theorem Continues.bind {x y : Exec ε ω σ α} {f : α → Exec ε ω σ β} (h : Continues s x K y) :
    Continues s (x >>= f) K (y >>= f) := by
  obtain ⟨t, ht, hxy⟩ := h
  refine ⟨t, ht, fun b s' => ?_⟩
  rw [returns_bind, returns_bind]
  constructor
  · rintro ⟨a, u, hx, hf⟩
    exact ⟨a, u, (hxy a u).mp hx, hf⟩
  · rintro ⟨a, u, hy, hf⟩
    exact ⟨a, u, (hxy a u).mpr hy, hf⟩

theorem Leads.continues_bind {x : Exec ε ω σ α} {f : α → Exec ε ω σ β} {a : α}
    {y : Exec ε ω σ β} (hx : Leads P I x a J) (hs : I s)
    (hf : ∀ t, J t → Continues t (f a) K y) : Continues s (x >>= f) K y := by
  obtain ⟨es, t, hrun, ht, -⟩ := hx.run_bind (f := f) hs
  obtain ⟨t', ht', hiff⟩ := hf t ht
  refine ⟨t', ht', fun b s' => Iff.trans ?_ (hiff b s')⟩
  unfold Returns
  rw [hrun]

theorem continues_read_bind {γ : Type} {g : σ → γ} {f : γ → Exec ε ω σ α} {y : Exec ε ω σ α}
    (h : Continues s (f (g s)) K y) : Continues s (probe (Probe.read g) >>= f) K y := by
  obtain ⟨t, ht, hiff⟩ := h
  exact ⟨t, ht, fun a s' => returns_read_bind.trans (hiff a s')⟩

/-! ### A part of the state -/

section
variable {ε' ω' τ : Type} {get : σ → τ} {set : τ → σ → σ} {ev : ω → ω'} {err : ε → ε'}
  {x : Exec ε ω τ α}

/-- An action on a part of the state, with its events and its failures told apart from others. -/
def within (get : σ → τ) (set : τ → σ → σ) (ev : ω → ω') (err : ε → ε') (x : Exec ε ω τ α) :
    Exec ε' ω' σ α := fun s =>
  ((x (get s)).1.map ev, match (x (get s)).2 with
    | .ok (a, t) => .ok (a, set t s)
    | .error e => .error (err e))

@[simp] theorem returns_within {a : α} :
    (within get set ev err x).Returns s a s' ↔ ∃ t, x.Returns (get s) a t ∧ set t s = s' := by
  simp only [within, Returns]
  rcases (x (get s)).2 with e | ⟨b, t⟩
  · constructor
    · intro h
      cases h
    · rintro ⟨t, h, -⟩
      cases h
  · constructor
    · intro h
      cases h
      exact ⟨t, rfl, rfl⟩
    · rintro ⟨t', h, rfl⟩
      cases h
      rfl

@[simp] theorem emits_within {P : ω' → Prop} :
    (within get set ev err x).Emits P s ↔ x.Emits (fun e => P (ev e)) (get s) := by
  constructor
  · exact fun h => ⟨fun e he => h.all _ (List.mem_map_of_mem he)⟩
  · intro h
    refine ⟨fun e he => ?_⟩
    obtain ⟨e', he', rfl⟩ := List.mem_map.mp he
    exact h.all e' he'

end

/-! ### Invariants -/

/-- The action keeps the invariant whenever it returns. -/
class Keeps (I : σ → Prop) (x : Exec ε ω σ α) : Prop where
  keeps : ∀ {s a s'}, I s → x.Returns s a s' → I s'

instance {a : α} : Keeps I (pure a : Exec ε ω σ α) where
  keeps h hx := (returns_pure.mp hx).2 ▸ h

instance {x : Probe ε ω σ α} : Keeps I (probe x) where
  keeps h hx := (returns_probe.mp hx).2 ▸ h

instance {x : Exec ε ω σ α} {f : α → Exec ε ω σ β} [hx : Keeps I x] [hf : ∀ a, Keeps I (f a)] :
    Keeps I (x >>= f) where
  keeps h hxf := by
    obtain ⟨a, t, hxa, hfa⟩ := returns_bind.mp hxf
    exact (hf a).keeps (hx.keeps h hxa) hfa

theorem keeps_bind {x : Exec ε ω σ α} {f : α → Exec ε ω σ β} (hx : Keeps I x)
    (hf : ∀ a, Keeps I (f a)) : Keeps I (x >>= f) := inferInstance

instance {c : Prop} [Decidable c] {x y : Exec ε ω σ α} [hx : Keeps I x] [hy : Keeps I y] :
    Keeps I (if c then x else y) := by
  split
  · exact hx
  · exact hy

instance {c : Prop} [Decidable c] {x : Exec ε ω σ Unit} [Keeps I x] : Keeps I (when c x) :=
  inferInstanceAs (Keeps I (if c then x else pure ()))

/-- From a state with the invariant, what the action returns has the property. -/
class Ends (I : σ → Prop) (Q : α → σ → Prop) (x : Exec ε ω σ α) : Prop where
  ends : ∀ {s a s'}, I s → x.Returns s a s' → Q a s'

theorem ends_bind {R : β → σ → Prop} {x : Exec ε ω σ α} {f : α → Exec ε ω σ β} [hx : Keeps I x]
    (hf : ∀ a, Ends I R (f a)) : Ends I R (x >>= f) where
  ends h hxf := by
    obtain ⟨a, t, hxa, hfa⟩ := returns_bind.mp hxf
    exact (hf a).ends (hx.keeps h hxa) hfa

instance {R : β → σ → Prop} {x : Exec ε ω σ α} {f : α → Exec ε ω σ β} [Keeps I x]
    [∀ a, Ends I R (f a)] : Ends I R (x >>= f) := ends_bind inferInstance

theorem Ends.keeps {x : Exec ε ω σ α} (h : Ends I (fun _ => I) x) : Keeps I x := ⟨h.ends⟩

instance (priority := low) {x : Exec ε ω σ α} [hx : Keeps I x] : Ends I (fun _ => I) x := ⟨hx.keeps⟩

instance {c : Prop} [Decidable c] {x y : Exec ε ω σ α} [hx : Ends I Q x] [hy : Ends I Q y] :
    Ends I Q (if c then x else y) := by
  split
  · exact hx
  · exact hy

/-- From every state with the invariant the two actions do the same. -/
def Agrees (I : σ → Prop) (x y : Exec ε ω σ α) : Prop := ∀ s, I s → x s = y s

theorem Agrees.refl (x : Exec ε ω σ α) : Agrees I x x := fun _ _ => rfl

/-- What follows an action has to agree where the action comes to only. -/
theorem run_bind_congr {x : Exec ε ω σ α} {f g : α → Exec ε ω σ β}
    (h : ∀ a t, x.Returns s a t → f a t = g a t) : (x >>= f) s = (x >>= g) s := by
  cases hx : x s with
  | mk es r =>
    cases r with
    | error e => rw [run_bind_fails hx, run_bind_fails hx]
    | ok at' =>
      obtain ⟨a, t⟩ := at'
      rw [run_bind_log hx, run_bind_log hx, h a t (congrArg Prod.snd hx)]

theorem run_bind_congr_left {x y : Exec ε ω σ α} {f : α → Exec ε ω σ β} (h : x s = y s) :
    (x >>= f) s = (y >>= f) s := by
  change Exec.bind x f s = Exec.bind y f s
  unfold Exec.bind
  rw [h]

theorem Agrees.bind {x : Exec ε ω σ α} {f g : α → Exec ε ω σ β} [hx : Keeps I x]
    (h : ∀ a, Agrees I (f a) (g a)) : Agrees I (x >>= f) (x >>= g) :=
  fun _ hs => run_bind_congr fun a t ha => h a t (hx.keeps hs ha)

theorem Agrees.ite {c : Prop} [Decidable c] {x x' y y' : Exec ε ω σ α} (hx : c → Agrees I x x')
    (hy : ¬ c → Agrees I y y') : Agrees I (if c then x else y) (if c then x' else y') := by
  split
  · next h => exact hx h
  · next h => exact hy h

theorem keeps_modify {g : σ → σ} (h : ∀ s, I s → I (g s)) :
    Keeps I (modify g : Exec ε ω σ Unit) where
  keeps hs hx := returns_modify.mp hx ▸ h _ hs

end Exec

/-! ## Runs -/

section
variable {σ ι : Type}

/-- The runs from `s₀`: the inputs of their steps, and the state they reach. -/
inductive Run (step : σ → ι → σ → Prop) (s₀ : σ) : List ι → σ → Prop
  | nil : Run step s₀ [] s₀
  | snoc {is : List ι} {i : ι} {s s' : σ} :
      Run step s₀ is s → step s i s' → Run step s₀ (is ++ [i]) s'

/-- What holds at the start and is kept by every step holds after every run. -/
theorem Run.invariant {step : σ → ι → σ → Prop} {s₀ s : σ} {is : List ι} {I : σ → Prop}
    (h : Run step s₀ is s) (start : I s₀)
    (keep : ∀ {s i s'}, I s → step s i s' → I s') : I s := by
  induction h with
  | nil => exact start
  | snoc _ hstep ih => exact keep ih hstep

/-- The steps of a function that may fail, one after the other. -/
theorem Run.append_foldlM {ε : Type} {f : σ → ι → Except ε σ} {s₀ s : σ} (js : List ι) :
    ∀ {is : List ι} {t : σ}, Run (fun s i s' => f s i = .ok s') s₀ is t → js.foldlM f t = .ok s →
      Run (fun s i s' => f s i = .ok s') s₀ (is ++ js) s := by
  induction js with
  | nil =>
    intro is t hrun h
    cases h
    rw [List.append_nil]
    exact hrun
  | cons j js ih =>
    intro is t hrun h
    rw [List.foldlM_cons] at h
    cases hstep : f t j with
    | error e =>
      rw [hstep] at h
      cases h
    | ok t' =>
      rw [hstep] at h
      rw [List.append_cons]
      exact ih (.snoc hrun hstep) h

theorem Run.of_foldlM {ε : Type} {f : σ → ι → Except ε σ} {s₀ s : σ} {is : List ι}
    (h : is.foldlM f s₀ = .ok s) : Run (fun s i s' => f s i = .ok s') s₀ is s :=
  append_foldlM is .nil h

end
