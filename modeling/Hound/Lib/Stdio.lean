import Mathlib

/-!
# Files that can fail

A card holds folders of files. A stream keeps what is written to it in a buffer, and
the card gets the buffer from the front, sooner or later. Each call takes its fate
from a schedule, and a call that fails may have done some of its work.
-/

namespace Stdio

structure Path (α : Type) where
  folder : List α
  name : List α
  deriving DecidableEq

structure Folder (α : Type) where
  /-- In the order they are listed. -/
  names : List (List α) := []
  files : List α → Option (List α) := fun _ => none

/-- The folders there are, by their paths. -/
abbrev Card (α : Type) := List α → Option (Folder α)

/-- A stream that is written to. -/
structure Stream (α : Type) where
  path : Path α
  /-- Where in the file the buffer belongs. -/
  pos : Nat := 0
  held : List α := []
  deriving DecidableEq

structure Fate where
  ok : Bool := true
  /-- How much is done of a call that fails. Of a write that succeeds, how much of
  the buffer reaches the card at once. -/
  part : Nat := 0
  deriving DecidableEq

/-- A schedule that is used up has no more faults. -/
structure World (α : Type) where
  card : Card α
  fates : List Fate := []

/-! ## Cards -/

section Cards

variable {α : Type}

/-- `text` with `bytes` written over it at `pos`. -/
def overwrite (text : List α) (pos : Nat) (bytes : List α) : List α :=
  text.take pos ++ bytes ++ text.drop (pos + bytes.length)

namespace Card

def read (c : Card α) (p : Path α) : Option (List α) := (c p.folder).bind fun f => f.files p.name

variable [DecidableEq α]

def change (c : Card α) (folder : List α) (g : Folder α → Folder α) : Card α :=
  Function.update c folder ((c folder).map g)

/-- A new text for a file that is there. -/
def store (c : Card α) (p : Path α) (text : List α) : Card α :=
  c.change p.folder fun f =>
    { f with files := Function.update f.files p.name ((f.files p.name).map fun _ => text) }

def create (c : Card α) (p : Path α) : Card α :=
  c.change p.folder fun f => { names := f.names ++ [p.name], files := Function.update f.files p.name (some []) }

def remove (c : Card α) (p : Path α) : Card α :=
  c.change p.folder fun f => { names := f.names.erase p.name, files := Function.update f.files p.name none }

def mkdir (c : Card α) (folder : List α) : Card α := Function.update c folder (some {})

end Card

end Cards

/-! ## Calls -/

def Io (α β : Type) : Type := World α → β × World α

namespace Io

variable {α β γ : Type}

instance : Monad (Io α) where
  pure b w := (b, w)
  bind x f w := f (x w).1 (x w).2

/-- What holds once `x` has run. -/
def Ends (x : Io α β) (w : World α) (Q : β → World α → Prop) : Prop := Q (x w).1 (x w).2

variable {w : World α} {Q Q' : β → World α → Prop} {R : γ → World α → Prop}

theorem ends_pure {b : β} (h : Q b w) : Ends (pure b) w Q := h

theorem Ends.bind {x : Io α β} {f : β → Io α γ} (hx : Ends x w Q) (hf : ∀ b w', Q b w' → Ends (f b) w' R) :
    Ends (x >>= f) w R :=
  hf _ _ hx

theorem Ends.mono {x : Io α β} (hx : Ends x w Q) (h : ∀ b w', Q b w' → Q' b w') : Ends x w Q' := h _ _ hx

theorem Ends.and {x : Io α β} (hx : Ends x w Q) (hx' : Ends x w Q') : Ends x w fun b w' => Q b w' ∧ Q' b w' :=
  ⟨hx, hx'⟩

end Io

section Calls

variable {α : Type} [DecidableEq α]

def nextFate : Io α Fate := fun w => (w.fates.headD {}, { w with fates := w.fates.tail })

/-- A call that changes nothing on the card, such as `fsync` or closing a reader. -/
def succeeds : Io α Bool := do
  let fate ← nextFate
  pure fate.ok

def card : Io α (Card α) := fun w => (w.card, w)

def setCard (c : Card α) : Io α Unit := fun w => ((), { w with card := c })

/-- The first `n` of the buffer reach the card. -/
def spill (s : Stream α) (n : Nat) : Io α (Stream α) := do
  let c ← card
  setCard (c.store s.path (overwrite ((c.read s.path).getD []) s.pos (s.held.take n)))
  pure { s with pos := s.pos + (s.held.take n).length, held := s.held.drop n }

/-- `mkdir`: a folder that is there already is left as it is. -/
def mkdir (folder : List α) : Io α Bool := do
  let fate ← nextFate
  let c ← card
  if (c folder).isSome then pure false
  else if fate.ok then do
    setCard (c.mkdir folder)
    pure true
  else do
    setCard (if fate.part = 0 then c else c.mkdir folder)
    pure false

/-- `fopen` in mode "wx". One that fails may leave an empty file. -/
def fopenNew (p : Path α) : Io α (Option (Stream α)) := do
  let fate ← nextFate
  let c ← card
  if (c p.folder).isNone || (c.read p).isSome then pure none
  else if fate.ok then do
    setCard (c.create p)
    pure (some { path := p })
  else do
    setCard (if fate.part = 0 then c else c.create p)
    pure none

/-- `fopen` in mode "r+b". -/
def fopenUpdate (p : Path α) : Io α (Option (Stream α)) := do
  let fate ← nextFate
  let c ← card
  pure (if fate.ok && (c.read p).isSome then some { path := p } else none)

/-- `fopen` in mode "rb", with what there is to read. -/
def fopenRead (p : Path α) : Io α (Option (List α)) := do
  let fate ← nextFate
  let c ← card
  pure (if fate.ok then c.read p else none)

/-- `fgets` on a stream whose rest falls into these chunks: what is put in the buffer,
and whether the stream has an error. -/
def fgets (chunks : List (List α)) : Io α (Option (List α) × Bool) := do
  let fate ← nextFate
  if fate.ok then pure (chunks.head?, false)
  else
    let part := (chunks.headD []).dropLast.take fate.part
    pure (if part = [] then none else some part, true)

/-- `fwrite`, whether it wrote all of `bytes`. -/
def fwrite (s : Stream α) (bytes : List α) : Io α (Bool × Stream α) := do
  let fate ← nextFate
  if fate.ok then do
    let s ← spill { s with held := s.held ++ bytes } fate.part
    pure (true, s)
  else pure (false, { s with held := s.held ++ bytes.take fate.part })

def fflush (s : Stream α) : Io α (Bool × Stream α) := do
  let fate ← nextFate
  let s ← spill s (if fate.ok then s.held.length else fate.part)
  pure (fate.ok, s)

/-- `fclose`: the stream is gone, whatever it reports. -/
def fclose (s : Stream α) : Io α Bool := do
  let (ok, _) ← fflush s
  pure ok

/-- `unlink` of a file that is there, or not. It does not fail. -/
def unlink (p : Path α) : Io α Unit := do
  let c ← card
  setCard (c.remove p)

/-- `fseek` to the end. -/
def fseekEnd (s : Stream α) : Io α (Bool × Stream α) := do
  let fate ← nextFate
  if fate.ok then do
    let s ← spill s s.held.length
    let c ← card
    pure (true, { s with pos := ((c.read s.path).getD []).length })
  else pure (false, s)

end Calls

/-! ## What a card keeps -/

section Laws

variable {α : Type} {c c' c'' : Card α} {p q : Path α} {text : List α}

theorem overwrite_end (text bytes : List α) : overwrite text text.length bytes = text ++ bytes := by
  simp [overwrite]

theorem overwrite_nil (text : List α) (pos : Nat) : overwrite text pos [] = text := by
  simp [overwrite]

/-- Two writes in a row. -/
theorem overwrite_overwrite {pos : Nat} (h : pos ≤ text.length) (a b : List α) :
    overwrite (overwrite text pos a) (pos + a.length) b = overwrite text pos (a ++ b) := by
  have htake : (text.take pos).length = pos := List.length_take_of_le h
  unfold overwrite
  have hfront : (text.take pos ++ a ++ text.drop (pos + a.length)).take (pos + a.length) = text.take pos ++ a := by
    rw [List.take_append_of_le_length (by simp [htake])]
    exact List.take_of_length_le (by simp [htake])
  have hback : (text.take pos ++ a ++ text.drop (pos + a.length)).drop (pos + a.length + b.length) =
      text.drop (pos + (a ++ b).length) := by
    rw [List.drop_append, List.drop_eq_nil_of_le (by simp [htake]), List.nil_append, List.drop_drop]
    congr 1
    simp [htake]
    omega
  rw [hfront, hback, List.append_assoc, List.append_assoc, List.append_assoc, List.append_assoc]

/-- Only files that satisfy `P` differ. -/
structure Touches (P : Path α → Prop) (c c' : Card α) : Prop where
  folder : ∀ f, (∀ name, ¬ P ⟨f, name⟩) → c' f = c f
  file : ∀ q, ¬ P q → c'.read q = c.read q

theorem Touches.refl (P : Path α → Prop) (c : Card α) : Touches P c c := ⟨fun _ _ => rfl, fun _ _ => rfl⟩

variable {P P' : Path α → Prop}

theorem Touches.trans (h : Touches P c c') (h' : Touches P c' c'') : Touches P c c'' :=
  ⟨fun f hf => (h'.folder f hf).trans (h.folder f hf), fun q hq => (h'.file q hq).trans (h.file q hq)⟩

theorem Touches.mono (h : Touches P c c') (hP : ∀ q, P q → P' q) : Touches P' c c' :=
  ⟨fun f hf => h.folder f fun name hname => hf name (hP _ hname), fun q hq => h.file q fun hP' => hq (hP q hP')⟩

variable [DecidableEq α]

namespace Card

theorem read_change (c : Card α) (folder : List α) (g : Folder α → Folder α) (q : Path α) :
    (c.change folder g).read q =
      if q.folder = folder then (c folder).bind fun f => (g f).files q.name else c.read q := by
  unfold read change
  by_cases h : q.folder = folder
  · rw [if_pos h, h, Function.update_self]
    cases c folder <;> rfl
  · rw [if_neg h, Function.update_of_ne h]

/-- How a file of one folder reads after a change of the name `name` there. -/
theorem read_update {g : Folder α → Folder α} {x : Folder α → Option (List α)}
    (hg : ∀ f, (g f).files = Function.update f.files p.name (x f)) (q : Path α) :
    (c.change p.folder g).read q = if q = p then (c p.folder).bind x else c.read q := by
  rw [read_change]
  by_cases hfolder : q.folder = p.folder
  · rw [if_pos hfolder]
    by_cases hname : q.name = p.name
    · have hq : q = p := by
        cases q
        cases p
        cases hfolder
        cases hname
        rfl
      rw [if_pos hq]
      congr 1
      funext f
      rw [hg, hname, Function.update_self]
    · rw [if_neg fun hq => hname (congrArg Path.name hq)]
      unfold read
      rw [hfolder]
      congr 1
      funext f
      rw [hg, Function.update_of_ne hname]
  · rw [if_neg hfolder, if_neg fun hq => hfolder (congrArg Path.folder hq)]

theorem read_store (c : Card α) (p : Path α) (text : List α) (q : Path α) :
    (c.store p text).read q = if q = p then (c.read p).map fun _ => text else c.read q := by
  unfold store
  rw [read_update fun _ => rfl]
  congr 1
  unfold read
  cases c p.folder <;> rfl

theorem read_create (c : Card α) (p : Path α) (q : Path α) :
    (c.create p).read q = if q = p then (c p.folder).map fun _ => [] else c.read q := by
  unfold create
  rw [read_update fun _ => rfl]
  congr 1
  cases c p.folder <;> rfl

theorem read_remove (c : Card α) (p : Path α) (q : Path α) :
    (c.remove p).read q = if q = p then none else c.read q := by
  unfold remove
  rw [read_update fun _ => rfl]
  congr 1
  cases c p.folder <;> rfl

theorem store_store (c : Card α) (p : Path α) (a b : List α) : (c.store p a).store p b = c.store p b := by
  unfold store change
  rw [Function.update_idem, Function.update_self]
  congr 1
  cases h : c p.folder with
  | none => rfl
  | some f =>
    simp only [Option.map_some, Function.update_idem, Function.update_self, Option.map_map]
    rfl

theorem store_self (h : c.read p = some text) : c.store p text = c := by
  unfold store change
  unfold read at h
  cases hf : c p.folder with
  | none => rw [hf] at h; cases h
  | some f =>
    rw [hf] at h
    have hfile : f.files p.name = some text := h
    rw [Option.map_some, hfile, Option.map_some]
    rw [← hfile, Function.update_eq_self, ← hf, Function.update_eq_self]

end Card

theorem touches_update {g : Folder α → Folder α} {x : Folder α → Option (List α)}
    (hg : ∀ f, (g f).files = Function.update f.files p.name (x f)) : Touches (· = p) c (c.change p.folder g) := by
  refine ⟨fun f hf => Function.update_of_ne ?_ _ _, fun q hq => ?_⟩
  · rintro rfl
    exact hf p.name rfl
  · rw [Card.read_update hg, if_neg hq]

theorem touches_store (c : Card α) (p : Path α) (text : List α) : Touches (· = p) c (c.store p text) :=
  touches_update fun _ => rfl

theorem touches_create (c : Card α) (p : Path α) : Touches (· = p) c (c.create p) := touches_update fun _ => rfl

theorem touches_remove (c : Card α) (p : Path α) : Touches (· = p) c (c.remove p) := touches_update fun _ => rfl

theorem isSome_store (c : Card α) (p : Path α) (text : List α) (q : Path α) :
    ((c.store p text).read q).isSome = (c.read q).isSome := by
  rw [Card.read_store]
  split
  · rename_i hq
    rw [hq, Option.isSome_map]
  · rfl

end Laws

/-! ## What a stream writes -/

section Streams

open Io

variable {α : Type} {c : Card α} {s s' : Stream α} {w w' : World α} {text : List α}

/-- `text` has gone through the stream, and the card has all of it but the buffer. -/
def Carries (c : Card α) (s : Stream α) (text : List α) : Prop :=
  ∃ stored, c.read s.path = some stored ∧ s.pos = stored.length ∧ stored ++ s.held = text

/-- What a call on a stream does to the card. -/
structure Served (s : Stream α) (w w' : World α) : Prop where
  touches : Touches (· = s.path) w.card w'.card
  there : (w'.card.read s.path).isSome = (w.card.read s.path).isSome

theorem Served.same (h : w'.card = w.card) : Served s w w' := by
  constructor
  · rw [h]
    exact .refl _ _
  · rw [h]

theorem Served.trans {w'' : World α} (h : Served s w w') (h' : Served s' w' w'') (hpath : s'.path = s.path) :
    Served s w w'' := by
  constructor
  · have htouches := h'.touches
    rw [hpath] at htouches
    exact h.touches.trans htouches
  · have hthere := h'.there
    rw [hpath] at hthere
    exact hthere.trans h.there

theorem nextFate_ends (w : World α) : Ends nextFate w fun fate w' =>
    w'.card = w.card ∧ w'.fates = w.fates.tail ∧ (w.fates = [] → fate = {}) :=
  ⟨rfl, rfl, fun h => by change w.fates.headD {} = {}; rw [h]; rfl⟩

theorem succeeds_ends (w : World α) : Ends succeeds w fun ok w' =>
    w'.card = w.card ∧ (w.fates = [] → ok = true ∧ w'.fates = []) :=
  ⟨rfl, fun h => ⟨by change (w.fates.headD {}).ok = true; rw [h]; rfl, by change w.fates.tail = []; rw [h]; rfl⟩⟩

variable [DecidableEq α]

theorem spill_served (s : Stream α) (n : Nat) (w : World α) :
    Ends (spill s n) w fun s' w' => s'.path = s.path ∧ Served s w w' ∧ w'.fates = w.fates :=
  ⟨rfl, ⟨touches_store _ _ _, isSome_store _ _ _ _⟩, rfl⟩

theorem Carries.spill (h : Carries w.card s text) (n : Nat) :
    Ends (spill s n) w fun s' w' => Carries w'.card s' text ∧ s'.held = s.held.drop n := by
  obtain ⟨stored, hread, hpos, htext⟩ := h
  refine ⟨⟨stored ++ s.held.take n, ?_, ?_, ?_⟩, rfl⟩
  · change (w.card.store s.path (overwrite ((w.card.read s.path).getD []) s.pos (s.held.take n))).read s.path = _
    rw [Card.read_store, if_pos rfl, hread, hpos, Option.getD_some, overwrite_end]
    rfl
  · change s.pos + (s.held.take n).length = _
    rw [hpos, List.length_append]
  · change stored ++ s.held.take n ++ s.held.drop n = text
    rw [List.append_assoc, List.take_append_drop, htext]

theorem fwrite_ends (s : Stream α) (bytes : List α) (w : World α) : Ends (fwrite s bytes) w fun r w' =>
    r.2.path = s.path ∧ Served s w w' ∧
      (r.1 = true → ∀ text, Carries w.card s text → Carries w'.card r.2 (text ++ bytes)) ∧
      (w.fates = [] → r.1 = true ∧ w'.fates = []) := by
  refine (nextFate_ends w).bind fun fate w₁ hfate => ?_
  obtain ⟨hcard, hfates, hclean⟩ := hfate
  split
  · have hcarried : Ends (spill { s with held := s.held ++ bytes } fate.part) w₁ fun s' w' =>
        ∀ text, Carries w.card s text → Carries w'.card s' (text ++ bytes) := by
      intro text ⟨stored, hread, hpos, htext⟩
      refine (Carries.spill (s := { s with held := s.held ++ bytes }) ⟨stored, ?_, hpos, ?_⟩ fate.part).1
      · rw [hcard]
        exact hread
      · rw [← htext, List.append_assoc]
    refine ((spill_served _ _ w₁).and hcarried).bind fun s' w' hspill => ?_
    obtain ⟨⟨hpath, hserved, hsame⟩, hcarries⟩ := hspill
    have hserves : Served s w w' := (Served.same hcard).trans hserved rfl
    exact ends_pure ⟨hpath, hserves, fun _ => hcarries, fun h => ⟨rfl, by rw [hsame, hfates, h]; rfl⟩⟩
  · rename_i hfails
    refine ends_pure ⟨rfl, .same hcard, fun h => Bool.noConfusion h, fun h => absurd ?_ hfails⟩
    rw [hclean h]

theorem fflush_ends (s : Stream α) (w : World α) : Ends (fflush s) w fun r w' =>
    r.2.path = s.path ∧ Served s w w' ∧
      (∀ text, Carries w.card s text → Carries w'.card r.2 text ∧ (s.held = [] ∨ r.1 = true → r.2.held = [])) ∧
      (w.fates = [] → r.1 = true ∧ w'.fates = []) := by
  refine (nextFate_ends w).bind fun fate w₁ hfate => ?_
  obtain ⟨hcard, hfates, hclean⟩ := hfate
  have hcarried : Ends (spill s (if fate.ok then s.held.length else fate.part)) w₁ fun s' w' =>
      ∀ text, Carries w.card s text → Carries w'.card s' text ∧ (s.held = [] ∨ fate.ok = true → s'.held = []) := by
    intro text hcarries
    rw [← hcard] at hcarries
    obtain ⟨hcarried, hheld⟩ := hcarries.spill (if fate.ok = true then s.held.length else fate.part)
    refine ⟨hcarried, fun hempty => hheld.trans ?_⟩
    rcases hempty with hempty | hok
    · rw [hempty]
      exact List.drop_nil
    · rw [if_pos hok]
      exact List.drop_length
  refine ((spill_served s _ w₁).and hcarried).bind fun s' w' hspill => ?_
  obtain ⟨⟨hpath, hserved, hsame⟩, hcarries⟩ := hspill
  refine ends_pure ⟨hpath, (Served.same hcard).trans hserved rfl, hcarries, fun h => ⟨?_, ?_⟩⟩
  · rw [hclean h]
  · rw [hsame, hfates, h]
    rfl

theorem fclose_ends (s : Stream α) (w : World α) : Ends (fclose s) w fun ok w' =>
    Served s w w' ∧ (∀ text, Carries w.card s text → s.held = [] ∨ ok = true → w'.card.read s.path = some text) ∧
      (w.fates = [] → ok = true ∧ w'.fates = []) := by
  refine (fflush_ends s w).bind fun r w' hflush => ?_
  obtain ⟨hpath, hserved, hcarries, hclean⟩ := hflush
  refine ends_pure ⟨hserved, fun text htext hempty => ?_, hclean⟩
  obtain ⟨⟨stored, hread, -, hstored⟩, hheld⟩ := hcarries text htext
  rw [hheld hempty, List.append_nil] at hstored
  rw [← hpath, hread, hstored]

theorem fopenNew_ends (p : Path α) (w : World α) : Ends (fopenNew p) w fun out w' =>
    Touches (· = p) w.card w'.card ∧
      (∀ f, out = some f → f.path = p ∧ Carries w'.card f []) ∧
      (w.fates = [] → (w.card p.folder).isSome → w.card.read p = none → out.isSome ∧ w'.fates = []) := by
  refine (nextFate_ends w).bind fun fate w₁ hfate => ?_
  obtain ⟨hcard, hfates, hclean⟩ := hfate
  refine Ends.bind (Q := fun c w' => c = w.card ∧ w' = w₁) ⟨hcard, rfl⟩ fun c w₂ hcards => ?_
  obtain ⟨hc, hw⟩ := hcards
  subst hw hc
  have hempty : w.fates = [] → w₂.fates = [] := fun h => by rw [hfates, h]; rfl
  split
  · rename_i hthere
    refine ends_pure ⟨?_, nofun, fun _ hfolder hnew => ?_⟩
    · rw [hcard]
      exact .refl _ _
    · rw [hnew, ← Option.not_isSome, hfolder] at hthere
      exact Bool.noConfusion hthere
  · rename_i hthere
    split
    · refine ⟨touches_create _ _, ?_, fun h _ _ => ⟨rfl, hempty h⟩⟩
      rintro f ⟨⟩
      refine ⟨rfl, [], ?_, rfl, rfl⟩
      change (w.card.create p).read p = some []
      rw [Card.read_create, if_pos rfl]
      rw [Bool.not_eq_true, Bool.or_eq_false_iff, Option.isNone_eq_false_iff] at hthere
      obtain ⟨folder, hfolder⟩ := Option.isSome_iff_exists.mp hthere.1
      rw [hfolder]
      rfl
    · rename_i hfails
      refine ⟨?_, nofun, fun h _ _ => absurd (by rw [hclean h]) hfails⟩
      change Touches (· = p) w.card (if fate.part = 0 then w.card else w.card.create p)
      split
      · exact .refl _ _
      · exact touches_create _ _

omit [DecidableEq α] in
theorem fopenRead_ends (p : Path α) (w : World α) : Ends (fopenRead p) w fun input w' =>
    w'.card = w.card ∧ (∀ text, input = some text → w.card.read p = some text) ∧
      (w.fates = [] → input = w.card.read p ∧ w'.fates = []) := by
  refine (nextFate_ends w).bind fun fate w₁ hfate => ?_
  obtain ⟨hcard, hfates, hclean⟩ := hfate
  refine ⟨hcard, fun text hinput => ?_, fun h => ⟨?_, ?_⟩⟩
  · change (if fate.ok = true then w₁.card.read p else none) = some text at hinput
    split at hinput
    · rw [← hcard]
      exact hinput
    · cases hinput
  · change (if fate.ok = true then w₁.card.read p else none) = w.card.read p
    rw [hclean h, if_pos rfl, hcard]
  · change w₁.fates = []
    rw [hfates, h]
    rfl

omit [DecidableEq α] in
/-- What `fgets` takes is the next chunk, unless the stream has an error. -/
theorem fgets_ends (chunks : List (List α)) (w : World α) : Ends (fgets chunks) w fun r w' =>
    w'.card = w.card ∧ (r.2 = false → r.1 = chunks.head?) ∧ (w.fates = [] → r.2 = false ∧ w'.fates = []) := by
  refine (nextFate_ends w).bind fun fate w₁ hfate => ?_
  obtain ⟨hcard, hfates, hclean⟩ := hfate
  split
  · exact ends_pure ⟨hcard, fun _ => rfl, fun h => ⟨rfl, by rw [hfates, h]; rfl⟩⟩
  · rename_i hfails
    exact ends_pure ⟨hcard, nofun, fun h => absurd (by rw [hclean h]) hfails⟩

/-- What `mkdir` may do. -/
structure MadeDir (folder : List α) (w : World α) (ok : Bool) (w' : World α) : Prop where
  there : (w.card folder).isSome → ok = false ∧ w'.card = w.card
  made : ok = true → w'.card = w.card.mkdir folder
  failed : ok = false → w'.card = w.card ∨ w'.card = w.card.mkdir folder
  clean : w.fates = [] → w.card folder = none → ok = true ∧ w'.fates = []

theorem mkdir_ends (folder : List α) (w : World α) : Ends (mkdir folder) w (MadeDir folder w) := by
  refine (nextFate_ends w).bind fun fate w₁ hfate => ?_
  obtain ⟨hcard, hfates, hclean⟩ := hfate
  refine Ends.bind (Q := fun c w' => c = w.card ∧ w' = w₁) ⟨hcard, rfl⟩ fun c w₂ hcards => ?_
  obtain ⟨hc, hw⟩ := hcards
  subst hw hc
  split
  · rename_i hthere
    exact ends_pure ⟨fun _ => ⟨rfl, hcard⟩, nofun, fun _ => .inl hcard,
      fun _ hnone => by rw [hnone] at hthere; exact Bool.noConfusion hthere⟩
  · rename_i hnew
    split
    · exact ⟨fun h => absurd h hnew, fun _ => rfl, nofun, fun h _ => ⟨rfl, by change w₂.fates = []; rw [hfates, h]; rfl⟩⟩
    · rename_i hfails
      refine ⟨fun h => absurd h hnew, nofun, fun _ => ?_, fun h _ => absurd (by rw [hclean h]) hfails⟩
      change (if fate.part = 0 then w.card else w.card.mkdir folder) = w.card ∨ _ = w.card.mkdir folder
      split
      · exact .inl rfl
      · exact .inr rfl

/-- A new folder has no files. -/
theorem touches_mkdir {folder : List α} : Touches (fun q => q.folder = folder) c (c.mkdir folder) := by
  refine ⟨fun f hf => Function.update_of_ne (fun h => hf [] h) _ _, fun q hq => ?_⟩
  unfold Card.read Card.mkdir
  rw [Function.update_of_ne hq]

theorem read_mkdir (folder : List α) {q : Path α} (hq : q.folder = folder) : (c.mkdir folder).read q = none := by
  unfold Card.read Card.mkdir
  rw [hq, Function.update_self]
  rfl

/-! ## The buffer of a stream in a longer file -/

/-- The first `n` of the buffer are written over the text at the stream's position. -/
structure Flushed (text : List α) (n : Nat) (c : Card α) (s : Stream α) (c' : Card α) (s' : Stream α) : Prop where
  card : c' = c.store s.path (overwrite text s.pos (s.held.take n))
  stream : s' = { s with pos := s.pos + (s.held.take n).length, held := s.held.drop n }

theorem Flushed.trans {c' c'' : Card α} {s'' : Stream α} {m n : Nat} (h : Flushed text m c s c' s')
    (h' : Flushed (overwrite text s.pos (s.held.take m)) n c' s' c'' s'') (hpos : s.pos ≤ text.length) :
    Flushed text (m + n) c s c'' s'' := by
  obtain ⟨rfl, rfl⟩ := h
  obtain ⟨rfl, rfl⟩ := h'
  have htake : s.held.take m ++ (s.held.drop m).take n = s.held.take (m + n) := List.take_add.symm
  constructor
  · rw [Card.store_store, overwrite_overwrite hpos, htake]
  · rw [← htake, List.length_append, ← Nat.add_assoc, List.drop_drop]

theorem read_store_self (h : c.read s.path = some text) (text' : List α) :
    (c.store s.path text').read s.path = some text' := by
  rw [Card.read_store, if_pos rfl, h]
  rfl

theorem fflush_flushed (h : w.card.read s.path = some text) : Ends (fflush s) w fun r w' =>
    ∃ n, Flushed text n w.card s w'.card r.2 ∧ (r.1 = true → s.held.length ≤ n) := by
  refine (nextFate_ends w).bind fun fate w₁ hfate => ?_
  rw [← hfate.1] at h
  refine Ends.bind (Q := fun s' w' => Flushed text (if fate.ok = true then s.held.length else fate.part) w₁.card s w'.card s')
    ⟨?_, rfl⟩ fun s' w' hflushed => ?_
  · change w₁.card.store s.path (overwrite ((w₁.card.read s.path).getD []) s.pos _) = _
    rw [h, Option.getD_some]
  · rw [hfate.1] at hflushed
    refine ends_pure ⟨_, hflushed, fun hok => ?_⟩
    rw [if_pos hok]

/-- A flush that finds nothing to write. -/
theorem spill_nothing (hread : w.card.read s.path = some text) (hheld : s.held = []) (n : Nat) : spill s n w = (s, w) := by
  have htake : s.held.take n = [] := by rw [hheld, List.take_nil]
  have hdrop : s.held.drop n = s.held := by rw [hheld, List.drop_nil]
  refine Prod.ext ?_ ?_
  · change ({ s with pos := s.pos + (s.held.take n).length, held := s.held.drop n } : Stream α) = s
    rw [htake, hdrop]
    rfl
  · change ({ w with card := w.card.store s.path (overwrite ((w.card.read s.path).getD []) s.pos (s.held.take n)) } :
      World α) = w
    rw [htake, hread, Option.getD_some, overwrite_nil, Card.store_self hread]

theorem fclose_nothing (hread : w.card.read s.path = some text) (hheld : s.held = []) :
    Ends (fclose s) w fun _ w' => w'.card = w.card := by
  refine Ends.bind (Q := fun _ w' => w'.card = w.card) ?_ fun _ _ h => ends_pure h
  refine (nextFate_ends w).bind fun fate w₁ hfate => ?_
  have hread₁ : w₁.card.read s.path = some text := by
    rw [hfate.1]
    exact hread
  refine Ends.bind (Q := fun _ w' => w'.card = w.card) ?_ fun _ _ h => ends_pure h
  unfold Ends
  rw [spill_nothing hread₁ hheld]
  exact hfate.1

omit [DecidableEq α] in
theorem fopenUpdate_ends (p : Path α) (w : World α) : Ends (fopenUpdate p) w fun out w' =>
    w'.card = w.card ∧ (∀ f, out = some f → f = { path := p } ∧ (w.card.read p).isSome) ∧
      (w.fates = [] → (w.card.read p).isSome → out.isSome ∧ w'.fates = []) := by
  refine (nextFate_ends w).bind fun fate w₁ hfate => ?_
  obtain ⟨hcard, hfates, hclean⟩ := hfate
  refine ⟨hcard, fun f hout => ?_, fun h hthere => ?_⟩
  · change (if (fate.ok && (w₁.card.read p).isSome) = true then some { path := p } else none) = some f at hout
    split at hout
    · rename_i hgood
      rw [hcard] at hgood
      cases hout
      exact ⟨rfl, (Bool.and_eq_true_iff.mp hgood).2⟩
    · cases hout
  · change (if (fate.ok && (w₁.card.read p).isSome) = true then some ({ path := p } : Stream α) else none).isSome ∧ w₁.fates = []
    rw [hclean h, hcard, hthere, hfates, h]
    exact ⟨rfl, rfl⟩

/-- A stream that has written nothing is moved to the end of its file. -/
theorem fseekEnd_ends (hread : w.card.read s.path = some text) (hheld : s.held = []) :
    Ends (fseekEnd s) w fun r w' => w'.card = w.card ∧ (r.1 = true → r.2 = { s with pos := text.length }) ∧
      (r.1 = false → r.2 = s) ∧ (w.fates = [] → r.1 = true ∧ w'.fates = []) := by
  refine (nextFate_ends w).bind fun fate w₁ hfate => ?_
  obtain ⟨hcard, hfates, hclean⟩ := hfate
  rw [← hcard] at hread
  split
  · refine Ends.bind (Q := fun s' w' => s' = s ∧ w' = w₁) ?_ fun s' w₂ hsame => ?_
    · unfold Ends
      rw [spill_nothing hread hheld]
      exact ⟨rfl, rfl⟩
    · obtain ⟨rfl, rfl⟩ := hsame
      refine Ends.bind (Q := fun c w' => c = w₂.card ∧ w' = w₂) ⟨rfl, rfl⟩ fun c w₃ hsame => ?_
      obtain ⟨rfl, rfl⟩ := hsame
      refine ends_pure ⟨hcard, fun _ => ?_, nofun, fun h => ⟨rfl, by rw [hfates, h]; rfl⟩⟩
      rw [hread]
      rfl
  · rename_i hfails
    exact ends_pure ⟨hcard, nofun, fun _ => rfl, fun h => absurd (by rw [hclean h]) hfails⟩

end Streams

end Stdio
