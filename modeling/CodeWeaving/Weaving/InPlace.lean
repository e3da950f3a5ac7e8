import CodeWeaving.Weaving.Journal

/-! Work on a thing where it stands: an error leaves the thing as far as the work had come. -/
namespace CodeWeaving

/-- Takes a thing to what is left of it, be the work done or not. -/
def InPlace (σ α : Type) : Type := σ → σ × Traced α

namespace InPlace

variable {σ τ α β : Type}

protected def pure (a : α) : InPlace σ α := fun s => (s, pure a)

protected def bind (x : InPlace σ α) (f : α → InPlace σ β) : InPlace σ β := fun s =>
  match (x s).2.result with
  | .ok a =>
    let (t, y) := f a (x s).1
    (t, ⟨(x s).2.journal ++ y.journal, y.result⟩)
  | .error e => ((x s).1, ⟨(x s).2.journal, .error e⟩)

instance : Monad (InPlace σ) where
  pure := InPlace.pure
  bind := InPlace.bind

def fail (e : WeaveError) : InPlace σ α := fun s => (s, Traced.fail e)

def read : InPlace σ σ := fun s => (s, pure s)

/-- A computation that does not touch the thing. -/
def looking (x : Traced α) : InPlace σ α := fun s => (s, x)

/-- One step, made or failed. -/
def update (f : σ → Except WeaveError σ) : InPlace σ Unit := fun s =>
  match f s with
  | .ok t => (t, pure ())
  | .error e => (s, Traced.fail e)

/-- A step that changes nothing, but may fail. -/
def require (f : σ → Except WeaveError α) : InPlace σ Unit :=
  update fun s => (f s).map fun _ => s

/-- The result as a value, an error too. -/
def attempt (x : InPlace σ α) : InPlace σ (Except WeaveError α) := fun s =>
  ((x s).1, (x s).2.attempt)

/-- Work on a part. -/
def within (part : σ → τ) (put : τ → σ → σ) (x : InPlace τ α) : InPlace σ α := fun s =>
  (put (x (part s)).1 s, (x (part s)).2)

/-- What is left of a thing, be the work done or not. -/
def left (x : InPlace σ α) (s : σ) : σ := (x s).1

def result (x : InPlace σ α) (s : σ) : Except WeaveError α := (x s).2.result

/-- What is left of a thing once the work on it is done. -/
def finish (x : InPlace σ α) (s : σ) : Except WeaveError σ := (x.result s).map fun _ => x.left s

/-- The work is done, with a value, and leaves the thing so. -/
def Done (x : InPlace σ α) (s : σ) (a : α) (t : σ) : Prop := x.result s = .ok a ∧ x.left s = t

/-- The work has failed and leaves the thing so. -/
def Failed (x : InPlace σ α) (s : σ) (e : WeaveError) (t : σ) : Prop :=
  x.result s = .error e ∧ x.left s = t

theorem done_or_failed (x : InPlace σ α) (s : σ) :
    (∃ a, x.Done s a (x.left s)) ∨ ∃ e, x.Failed s e (x.left s) := by
  cases h : x.result s with
  | ok a => exact .inl ⟨a, h, rfl⟩
  | error e => exact .inr ⟨e, h, rfl⟩

theorem Done.finish {x : InPlace σ α} {s t : σ} {a : α} (h : x.Done s a t) :
    x.finish s = .ok t := by
  rw [InPlace.finish, h.1, h.2]
  rfl

theorem Failed.finish {x : InPlace σ α} {s t : σ} {e : WeaveError} (h : x.Failed s e t) :
    x.finish s = .error e := by
  rw [InPlace.finish, h.1]
  rfl

section

variable {x : InPlace σ α} {f : α → InPlace σ β} {s t : σ} {a : α} {b : β} {e : WeaveError}

theorem bind_of_ok (h : x.result s = .ok a) :
    (x >>= f).left s = (f a).left (x.left s) ∧ (x >>= f).result s = (f a).result (x.left s) := by
  show (InPlace.bind x f s).1 = _ ∧ (InPlace.bind x f s).2.result = _
  unfold InPlace.bind
  rw [show (x s).2.result = .ok a from h]
  exact ⟨rfl, rfl⟩

theorem bind_of_error (h : x.result s = .error e) :
    (x >>= f).left s = x.left s ∧ (x >>= f).result s = .error e := by
  show (InPlace.bind x f s).1 = _ ∧ (InPlace.bind x f s).2.result = _
  unfold InPlace.bind
  rw [show (x s).2.result = .error e from h]
  exact ⟨rfl, rfl⟩

theorem done_bind_of_done {r : σ} (h : x.Done s a r) :
    (x >>= f).Done s b t ↔ (f a).Done r b t := by
  rw [Done, Done, (bind_of_ok h.1).1, (bind_of_ok h.1).2, h.2]

theorem failed_bind_of_done {r : σ} (h : x.Done s a r) :
    (x >>= f).Failed s e t ↔ (f a).Failed r e t := by
  rw [Failed, Failed, (bind_of_ok h.1).1, (bind_of_ok h.1).2, h.2]

@[simp] theorem done_bind :
    (x >>= f).Done s b t ↔ ∃ a r, x.Done s a r ∧ (f a).Done r b t := by
  constructor
  · intro h
    rcases done_or_failed x s with ⟨a, hx⟩ | ⟨e, hx⟩
    · exact ⟨a, _, hx, (done_bind_of_done hx).1 h⟩
    · exact nomatch (bind_of_error hx.1).2.symm.trans h.1
  · rintro ⟨a, r, hx, h⟩
    exact (done_bind_of_done hx).2 h

@[simp] theorem failed_bind : (x >>= f).Failed s e t ↔
    x.Failed s e t ∨ ∃ a r, x.Done s a r ∧ (f a).Failed r e t := by
  constructor
  · intro h
    rcases done_or_failed x s with ⟨a, hx⟩ | ⟨e', hx⟩
    · exact .inr ⟨a, _, hx, (failed_bind_of_done hx).1 h⟩
    · obtain ⟨hleft, hresult⟩ := bind_of_error (f := f) hx.1
      cases hresult.symm.trans h.1
      exact .inl ⟨hx.1, hleft.symm.trans h.2⟩
  · rintro (hx | ⟨a, r, hx, h⟩)
    · exact ⟨(bind_of_error hx.1).2, (bind_of_error hx.1).1.trans hx.2⟩
    · exact (failed_bind_of_done hx).2 h

theorem bind_pure_eq {k : α → β} : (x >>= fun a => pure (k a)).left s = x.left s ∧
    (x >>= fun a => pure (k a)).result s = (x.result s).map k := by
  cases h : x.result s with
  | ok a => exact bind_of_ok h
  | error e => exact bind_of_error h

theorem left_attempt_bind {k : Except WeaveError α → InPlace σ β} :
    (x.attempt >>= k).left s = (k (x.result s)).left (x.left s) :=
  (bind_of_ok rfl).1

theorem read_bind {k : σ → InPlace σ β} :
    (read >>= k).left s = (k s).left s ∧ (read >>= k).result s = (k s).result s :=
  bind_of_ok rfl

theorem done_read_bind {k : σ → InPlace σ β} :
    (read >>= k).Done s b t ↔ (k s).Done s b t :=
  done_bind_of_done ⟨rfl, rfl⟩

theorem failed_read_bind {k : σ → InPlace σ β} :
    (read >>= k).Failed s e t ↔ (k s).Failed s e t :=
  failed_bind_of_done ⟨rfl, rfl⟩

end

section

variable {x : InPlace σ α} {g : σ → Except WeaveError σ} {k : σ → Except WeaveError β} {s t : σ}
  {a c : α} {u : Unit} {e e' : WeaveError}

@[simp] theorem done_pure : (pure c : InPlace σ α).Done s a t ↔ c = a ∧ s = t := by
  show Except.ok c = Except.ok a ∧ s = t ↔ _
  rw [Except.ok.injEq]

@[simp] theorem not_failed_pure : ¬ (pure a : InPlace σ α).Failed s e t := fun h => nomatch h.1

@[simp] theorem done_looking {y : Traced α} :
    (looking y).Done s a t ↔ y.result = .ok a ∧ s = t := .rfl

@[simp] theorem failed_looking {y : Traced α} :
    (looking y).Failed s e t ↔ y.result = .error e ∧ s = t := .rfl

@[simp] theorem not_done_fail : ¬ (fail e).Done s a t := fun h => nomatch h.1

@[simp] theorem failed_fail : (fail e' : InPlace σ α).Failed s e t ↔ e' = e ∧ s = t := by
  show Except.error e' = Except.error e ∧ s = t ↔ _
  rw [Except.error.injEq]

@[simp] theorem done_update : (update g).Done s u t ↔ g s = .ok t := by
  unfold Done result left update
  cases g s <;> simp

@[simp] theorem failed_update : (update g).Failed s e t ↔ g s = .error e ∧ s = t := by
  unfold Failed result left update
  cases g s <;> simp

@[simp] theorem done_require : (require k).Done s u t ↔ (∃ b, k s = .ok b) ∧ s = t := by
  rw [require, done_update]
  cases k s <;> simp [Except.map]

@[simp] theorem failed_require : (require k).Failed s e t ↔ k s = .error e ∧ s = t := by
  rw [require, failed_update]
  cases k s <;> simp [Except.map]

@[simp] theorem done_attempt {r : Except WeaveError α} :
    x.attempt.Done s r t ↔ x.result s = r ∧ x.left s = t := by
  show Except.ok (x.result s) = Except.ok r ∧ x.left s = t ↔ _
  rw [Except.ok.injEq]

@[simp] theorem not_failed_attempt : ¬ x.attempt.Failed s e t := fun h => nomatch h.1

/-- A step that may fail leaves things as they were if it does. -/
theorem failed_unless {P : Prop} [Decidable P] :
    (if P then (do fail e'; x) else x).Failed s e t ↔
      P ∧ e' = e ∧ s = t ∨ ¬ P ∧ x.Failed s e t := by
  split <;> simp [*]

theorem done_unless {P : Prop} [Decidable P] :
    (if P then (do fail e'; x) else x).Done s a t ↔ ¬ P ∧ x.Done s a t := by
  split <;> simp [*]

theorem exists_failed_of_forM {ι : Type} {l : List ι} {f : ι → InPlace σ PUnit}
    (h : (l.forM f).Failed s e t) : ∃ i ∈ l, ∃ r u, (f i).Failed r e u := by
  induction l generalizing s with
  | nil => exact absurd h not_failed_pure
  | cons i l ih =>
    rcases failed_bind.1 h with h | ⟨_, r, -, h⟩
    · exact ⟨i, List.mem_cons_self, s, t, h⟩
    · obtain ⟨j, hj, h⟩ := ih h
      exact ⟨j, List.mem_cons_of_mem _ hj, h⟩

end

section

variable {part : σ → τ} {put : τ → σ → σ} {x : InPlace τ α} {s t : σ} {a : α} {e : WeaveError}

@[simp] theorem done_within :
    (within part put x).Done s a t ↔ ∃ r, x.Done (part s) a r ∧ put r s = t := by
  constructor
  · intro h
    exact ⟨_, ⟨h.1, rfl⟩, h.2⟩
  · rintro ⟨r, ⟨hresult, rfl⟩, h⟩
    exact ⟨hresult, h⟩

@[simp] theorem failed_within :
    (within part put x).Failed s e t ↔ ∃ r, x.Failed (part s) e r ∧ put r s = t := by
  constructor
  · intro h
    exact ⟨_, ⟨h.1, rfl⟩, h.2⟩
  · rintro ⟨r, ⟨hresult, rfl⟩, h⟩
    exact ⟨hresult, h⟩

end

end InPlace

end CodeWeaving
