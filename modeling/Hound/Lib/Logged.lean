import Mathlib

/-!
# Logged computations

A computation that returns a value and logs what it did on the way. A triple
says what may be logged and what is returned, and composes as the computation
does.
-/

@[ext] structure Logged (ε α : Type) where
  value : α
  log : List ε

namespace Logged

variable {ε ε' α β : Type}

instance : Monad (Logged ε) where
  pure a := ⟨a, []⟩
  bind x f := ⟨(f x.value).value, x.log ++ (f x.value).log⟩

/-- Log what was done. -/
def tell (events : List ε) : Logged ε Unit := ⟨(), events⟩

def relabel (f : ε → ε') (x : Logged ε α) : Logged ε' α := ⟨x.value, x.log.map f⟩

@[simp] theorem value_pure (a : α) : (pure a : Logged ε α).value = a := rfl

@[simp] theorem log_pure (a : α) : (pure a : Logged ε α).log = [] := rfl

@[simp] theorem value_bind (x : Logged ε α) (f : α → Logged ε β) :
    (x >>= f).value = (f x.value).value := rfl

@[simp] theorem log_bind (x : Logged ε α) (f : α → Logged ε β) :
    (x >>= f).log = x.log ++ (f x.value).log := rfl

@[simp] theorem value_tell (events : List ε) : (tell events).value = () := rfl

@[simp] theorem log_tell (events : List ε) : (tell events).log = events := rfl

@[simp] theorem value_relabel (f : ε → ε') (x : Logged ε α) : (x.relabel f).value = x.value := rfl

@[simp] theorem log_relabel (f : ε → ε') (x : Logged ε α) : (x.relabel f).log = x.log.map f := rfl

instance : LawfulMonad (Logged ε) := .mk' (Logged ε)
  (fun _ => Logged.ext rfl (List.append_nil _))
  (fun _ _ => rfl)
  (fun _ _ _ => Logged.ext rfl (List.append_assoc _ _ _))

@[simp] theorem value_map (f : α → β) (x : Logged ε α) : (f <$> x).value = f x.value := rfl

@[simp] theorem log_map (f : α → β) (x : Logged ε α) : (f <$> x).log = x.log := List.append_nil _

/-! ## Triples -/

/-- Every logged event satisfies `P`, and the returned value `Q`. -/
structure Meets (x : Logged ε α) (P : ε → Prop) (Q : α → Prop) : Prop where
  logged : ∀ e ∈ x.log, P e
  returned : Q x.value

variable {P P' : ε → Prop} {Q Q' : α → Prop} {R : β → Prop}

theorem meets_pure {a : α} (h : Q a) : Meets (pure a : Logged ε α) P Q := ⟨nofun, h⟩

theorem meets_tell {events : List ε} {Q : Unit → Prop} (hevents : ∀ e ∈ events, P e) (h : Q ()) :
    Meets (tell events) P Q := ⟨hevents, h⟩

theorem Meets.bind {x : Logged ε α} {f : α → Logged ε β} (hx : Meets x P Q)
    (hf : ∀ a, Q a → Meets (f a) P R) : Meets (x >>= f) P R := by
  have hrest := hf x.value hx.returned
  constructor
  · intro e he
    rcases List.mem_append.mp he with he | he
    · exact hx.logged e he
    · exact hrest.logged e he
  · exact hrest.returned

/-- Each step of a fold keeps what the value satisfies. -/
theorem Meets.foldlM_mem {f : β → α → Logged ε β} {as : List α} (hf : ∀ b, ∀ a ∈ as, R b → Meets (f b a) P R) {b : β}
    (hb : R b) : Meets (as.foldlM f b) P R := by
  induction as generalizing b with
  | nil => exact meets_pure hb
  | cons a as ih =>
    exact Meets.bind (hf b a List.mem_cons_self hb) fun _ h =>
      ih (fun b' a' ha' => hf b' a' (List.mem_cons_of_mem _ ha')) h

theorem Meets.foldlM {f : β → α → Logged ε β} (hf : ∀ b a, R b → Meets (f b a) P R) (as : List α) {b : β}
    (hb : R b) : Meets (as.foldlM f b) P R := Meets.foldlM_mem (fun b a _ => hf b a) hb

theorem Meets.mono {x : Logged ε α} (h : Meets x P Q) (hlog : ∀ e, P e → P' e)
    (hvalue : ∀ a, Q a → Q' a) : Meets x P' Q' :=
  ⟨fun e he => hlog e (h.logged e he), hvalue _ h.returned⟩

theorem Meets.and {x : Logged ε α} (h : Meets x P Q) (h' : Meets x P' Q') :
    Meets x (fun e => P e ∧ P' e) fun a => Q a ∧ Q' a :=
  ⟨fun e he => ⟨h.logged e he, h'.logged e he⟩, h.returned, h'.returned⟩

theorem Meets.relabel {x : Logged ε α} {f : ε → ε'} {P : ε' → Prop}
    (h : Meets x (fun e => P (f e)) Q) : Meets (x.relabel f) P Q := by
  constructor
  · intro e he
    obtain ⟨a, ha, rfl⟩ := List.mem_map.mp he
    exact h.logged a ha
  · exact h.returned

/-! ## Silence -/

/-- What logs nothing. -/
abbrev Silent (x : Logged ε α) (Q : α → Prop) : Prop := Meets x (fun _ => False) Q

theorem Meets.log_eq_nil {x : Logged ε α} (h : Silent x Q) : x.log = [] :=
  List.eq_nil_iff_forall_not_mem.mpr h.logged

end Logged
