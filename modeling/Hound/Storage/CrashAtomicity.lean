import Hound.Storage.Persistence

/-!
# Power cuts and failed writes

A session is a successful `load` and the saves after it, each with the fates of
its NVS calls, up to a power cut. While RAM and flash agree on the generation, a
save writes the slot that is not published, and any cut leaves one whole save.
After a publication that took effect but reported a failure, RAM is one behind:
the next save rewrites the published slot in place.
-/

namespace Hound

open Faults

/-- One call of `persist` and what happens to its NVS calls. -/
structure Save where
  state : State
  schedule : List Fate := []

/-- The running device with every state saved so far, newest first; the oldest
is the one `load` returned. -/
structure Session where
  nvs : Nvs
  saved : List (State × Status)
  off : Bool := false

namespace Session

def flash (x : Session) : Flash := x.nvs.device.store

def start (buffered : Bool) (reason : UInt32) (random : MealKey) (state : State) (n : Nvs) :
    Session :=
  let (status, state, nvs) := n.load buffered reason random state
  { nvs, saved := [(state, status)] }

/-- The NVS a save runs on: this session's, with the save's own fates. -/
def facing (x : Session) (call : Save) : Nvs :=
  { x.nvs with device := { x.nvs.device with schedule := call.schedule } }

def save (buffered : Bool) (x : Session) (call : Save) : Session :=
  if x.off then x
  else
    let (status, nvs) := (x.facing call).persist buffered call.state
    { nvs, saved := (call.state, status) :: x.saved, off := status == .cut }

def run (buffered : Bool) (x : Session) (calls : List Save) : Session :=
  calls.foldl (save buffered) x

/-- `C` holds at every save of the run, on the session before it. -/
def EverySave (buffered : Bool) (C : Session → Save → Prop) : Session → List Save → Prop
  | _, [] => True
  | x, call :: calls => C x call ∧ EverySave buffered C (x.save buffered call) calls

/-- The next `load` without faults returns true, with the state of one single
save (or of the initial load), and no later save returned true. -/
def Atomic (buffered : Bool) (x : Session) : Prop :=
  ∃ newer s status older, x.saved = newer ++ (s, status) :: older ∧
    (∀ later ∈ newer, later.2 ≠ .ok) ∧
    ∀ (reason ram : UInt32) (random : MealKey) (state : State),
      ((Nvs.powerOn x.flash ram).load buffered reason random state).1 = .ok ∧
        ((Nvs.powerOn x.flash ram).load buffered reason random state).2.1 =
          s.rested.booted reason

/-- This save does not publish the last generation number, and when flash
already publishes the generation it writes, none or all of its parts land. -/
def Whole (buffered : Bool) (x : Session) (call : Save) : Prop :=
  x.off = false → validCurrent call.state = true →
    (x.nvs.generation = 0xfffffffe → landed buffered 6 call.schedule < 6) ∧
    (x.flash.generation = some (x.nvs.generation + 1) →
      landed buffered 5 call.schedule = 0 ∨ landed buffered 5 call.schedule = 5)

instance (buffered : Bool) (x : Session) (call : Save) : Decidable (Whole buffered x call) :=
  inferInstanceAs (Decidable (_ → _ → _ ∧ _))

/-! ## The invariant -/

/-- Flash holds one whole save, RAM is level with it or one behind. -/
structure Recoverable (x : Session) (gen : UInt32) (s : State) : Prop where
  holds : Holds x.flash gen s
  valid : validCurrent s = true
  room : gen + 1 ≠ 0
  level : x.nvs.generation = gen ∨ x.nvs.generation + 1 = gen

/-- The recoverable save is not older than the last one that returned true. -/
def Kept (x : Session) : Prop :=
  ∃ gen newer s status older, x.saved = newer ++ (s, status) :: older ∧
    (∀ later ∈ newer, later.2 ≠ .ok) ∧ x.Recoverable gen s

theorem Kept.atomic {x : Session} (h : x.Kept) (buffered : Bool) : x.Atomic buffered := by
  obtain ⟨gen, newer, s, status, older, hsaved, hnewer, hrec⟩ := h
  refine ⟨newer, s, status, older, hsaved, hnewer, fun reason ram random state => ?_⟩
  exact load_holds_ok hrec.holds hrec.valid hrec.room buffered reason random state ram

theorem kept_start {buffered : Bool} {reason : UInt32} {random : MealKey} {state : State} {n : Nvs}
    (loaded : (n.load buffered reason random state).1 = .ok)
    (room : (n.load buffered reason random state).2.2.generation + 1 ≠ 0) :
    (start buffered reason random state n).Kept := by
  obtain ⟨valid, hholds⟩ := holds_of_load loaded
  exact ⟨_, [], _, _, [], rfl, by simp, ⟨hholds, valid, room, .inl rfl⟩⟩

/-- The save that was recoverable still is, and this one did not return true. -/
theorem kept_older {x y : Session} {call : Save} {status : Status} {gen : UInt32}
    {newer older : List (State × Status)} {s : State} {was : Status}
    (hsaved : x.saved = newer ++ (s, was) :: older) (hnewer : ∀ later ∈ newer, later.2 ≠ .ok)
    (hcons : y.saved = (call.state, status) :: x.saved) (hstatus : status ≠ .ok)
    (hrec : y.Recoverable gen s) : y.Kept := by
  refine ⟨gen, (call.state, status) :: newer, s, was, older, ?_, ?_, hrec⟩
  · rw [hcons, hsaved, List.cons_append]
  · intro later hlater
    rcases List.mem_cons.mp hlater with rfl | hlater
    · exact hstatus
    · exact hnewer later hlater

theorem kept_newest {x y : Session} {call : Save} {status : Status} {gen : UInt32}
    (hcons : y.saved = (call.state, status) :: x.saved) (hrec : y.Recoverable gen call.state) :
    y.Kept :=
  ⟨gen, [], call.state, status, x.saved, by rw [hcons, List.nil_append], by simp, hrec⟩

/-- Fewer than six writes into the unpublished slot leave the published one. -/
theorem holds_other_slot {f : Flash} {gen : UInt32} {s : State} (h : Holds f gen s) (s' : State)
    (k : Nat) (hk : k ≤ 5) : Holds (f.advanced s' (gen + 1) k) gen s := by
  have hslot : slot gen ≠ slot (gen + 1) := by
    rw [slot_succ]
    cases slot gen <;> decide
  rw [Flash.advanced, if_pos hk]
  refine ⟨by rw [putParts_generation]; exact h.published, fun space => ?_⟩
  rw [putParts_other_slot _ _ _ _ _ _ hslot]
  exact h.blobs space

/-- Five writes into the published slot replace the save it holds. -/
theorem holds_rewritten {f : Flash} {gen : UInt32} (h : f.generation = some gen) (s : State)
    (k : Nat) (hk : 5 ≤ k) : Holds (f.advanced s gen k) gen s := by
  by_cases hfive : k ≤ 5
  · have hall : Space.all.take k = Space.all := by
      rw [show k = 5 by omega]
      rfl
    rw [Flash.advanced, if_pos hfive, hall]
    exact ⟨by rw [putParts_generation]; exact h, putParts_all f s gen⟩
  · rw [Flash.advanced, if_neg hfive]
    exact ⟨rfl, putParts_all f s gen⟩

theorem save_eq (buffered : Bool) {x : Session} (call : Save) (on : x.off = false) :
    x.save buffered call =
      { nvs := ((x.facing call).persist buffered call.state).2,
        saved := (call.state, ((x.facing call).persist buffered call.state).1) :: x.saved,
        off := ((x.facing call).persist buffered call.state).1 == .cut } := by
  simp [save, on]

theorem kept_save (buffered : Bool) (x : Session) (call : Save) (whole : x.Whole buffered call)
    (h : x.Kept) : (x.save buffered call).Kept := by
  obtain ⟨gen, newer, s, was, older, hsaved, hnewer, hrec⟩ := h
  cases hoff : x.off with
  | true =>
    have hsame : x.save buffered call = x := by simp [save, hoff]
    rw [hsame]
    exact ⟨gen, newer, s, was, older, hsaved, hnewer, hrec⟩
  | false =>
    have hsave := save_eq buffered call hoff
    have hcons : (x.save buffered call).saved =
        (call.state, ((x.facing call).persist buffered call.state).1) :: x.saved := by rw [hsave]
    obtain ⟨-, hrefused⟩ | ⟨hvalid, -, hstatus, hstore, hram⟩ :=
      persist_cases buffered (x.facing call) call.state
    · rw [hrefused] at hsave hcons
      have hsame : (x.save buffered call).Recoverable gen s := by
        rw [hsave]
        exact ⟨hrec.holds, hrec.valid, hrec.room, hrec.level⟩
      exact kept_older hsaved hnewer hcons (by simp) hsame
    · obtain ⟨hlast, hbehind⟩ := whole hoff hvalid
      have hflash : (x.save buffered call).flash =
          x.flash.advanced call.state (x.nvs.generation + 1) (landed buffered 6 call.schedule) := by
        rw [hsave]
        exact hstore
      have hgen : (x.save buffered call).nvs.generation =
          if ending buffered 6 call.schedule = .ok then x.nvs.generation + 1
          else x.nvs.generation := by
        rw [hsave]
        exact hram
      have hending (hok : ((x.facing call).persist buffered call.state).1 = .ok) :
          landed buffered 6 call.schedule = 6 := by
        rw [hstatus] at hok
        exact landed_of_ok buffered 6 call.schedule hok
      have hsix : landed buffered 6 call.schedule ≤ 6 := landed_le buffered 6 call.schedule
      have hfive : landed buffered 5 call.schedule = min 5 (landed buffered 6 call.schedule) :=
        landed_succ buffered 5 call.schedule
      rcases hrec.level with hlevel | hlag
      · -- RAM and flash agree: the parts go to the other slot
        by_cases hk : landed buffered 6 call.schedule ≤ 5
        · have hnot : ((x.facing call).persist buffered call.state).1 ≠ .ok := fun hok => by
            have := hending hok
            omega
          refine kept_older hsaved hnewer hcons hnot ⟨?_, hrec.valid, hrec.room, .inl ?_⟩
          · rw [hflash, hlevel]
            exact holds_other_slot hrec.holds call.state _ hk
          · rw [hgen, if_neg (hstatus ▸ hnot), hlevel]
        · have hall : landed buffered 6 call.schedule = 6 := by omega
          suffices hnew : (x.save buffered call).Recoverable (x.nvs.generation + 1) call.state from
            kept_newest hcons hnew
          refine ⟨?_, hvalid, ?_, ?_⟩
          · rw [hflash, hall]
            exact holds_advanced _ _ _
          · have hne : x.nvs.generation ≠ 0xfffffffe := fun he => by
              have := hlast he
              omega
            have hroom : x.nvs.generation + 1 ≠ 0 := hlevel ▸ hrec.room
            grind
          · rw [hgen]
            split
            · exact .inl rfl
            · exact .inr rfl
      · -- flash already publishes this generation: the parts replace its own
        have hpublished : x.flash.generation = some (x.nvs.generation + 1) := by
          rw [hlag]
          exact hrec.holds.published
        have hchoice := hbehind hpublished
        by_cases hk : landed buffered 6 call.schedule = 0
        · have hnot : ((x.facing call).persist buffered call.state).1 ≠ .ok := fun hok => by
            have := hending hok
            omega
          refine kept_older hsaved hnewer hcons hnot ⟨?_, hrec.valid, hrec.room, .inr ?_⟩
          · rw [hflash, hk]
            exact hrec.holds
          · rw [hgen, if_neg (hstatus ▸ hnot), hlag]
        · suffices hnew : (x.save buffered call).Recoverable gen call.state from
            kept_newest hcons hnew
          refine ⟨?_, hvalid, hrec.room, ?_⟩
          · rw [hflash, hlag]
            exact holds_rewritten hrec.holds.published call.state _ (by omega)
          · rw [hgen]
            split
            · exact .inl hlag
            · exact .inr hlag

theorem kept_run (buffered : Bool) (x : Session) (calls : List Save)
    (meets : EverySave buffered (Whole buffered) x calls) (h : x.Kept) :
    (x.run buffered calls).Kept := by
  induction calls generalizing x with
  | nil => exact h
  | cons call calls ih => exact ih _ meets.2 (kept_save buffered x call meets.1 h)

/-! ## Crash atomicity -/

/-- In a session whose saves are all whole, every state reached loads as one
single save, not older than the last that returned true. -/
theorem saved_state_atomic (buffered : Bool) (reason : UInt32) (random : MealKey) (state : State)
    (n : Nvs) (calls : List Save)
    (loaded : (n.load buffered reason random state).1 = .ok)
    (room : (n.load buffered reason random state).2.2.generation ≠ 0xffffffff)
    (meets : EverySave buffered (Whole buffered) (start buffered reason random state n) calls) :
    ((start buffered reason random state n).run buffered calls).Atomic buffered := by
  have hroom : (n.load buffered reason random state).2.2.generation + 1 ≠ 0 := by grind
  exact (kept_run buffered _ calls meets (kept_start loaded hroom)).atomic buffered

/-- Two states that differ in the settings and in the pet. -/
def young : State := { keyed with settings := { brightness := 60 }, pet := { xp := 1 } }
def grown : State := { keyed with settings := { brightness := 80 }, pet := { xp := 2 } }

/-- The commit of the publication fails after the counter is stored. -/
def publicationUnseen : Save :=
  { state := young, schedule := List.replicate 11 .done ++ [.failed false] }

/-- Power goes off before the second part. -/
def cutAfterFirstPart : Save := { state := grown, schedule := [.done, .done, .cut false] }

/-- A cut during an ordinary save, after one whose publication went unseen but
was repeated in full. -/
theorem saved_state_atomic_repeated :
    ((start false 1 keyed.mealKey {} (Nvs.powerOn {} 0)).run false
      [publicationUnseen, { state := young }, cutAfterFirstPart]).Atomic false :=
  saved_state_atomic false 1 keyed.mealKey {} (Nvs.powerOn {} 0) _ (by decide)
    (by decide) ⟨by decide +kernel, by decide +kernel, by decide +kernel, trivial⟩

/-- After an unseen publication the next save rewrites the published slot, and
a cut leaves the new settings beside the old pet. -/
theorem saved_state_mixed :
    ¬ ∀ (buffered : Bool) (reason : UInt32) (random : MealKey) (state : State) (n : Nvs)
        (calls : List Save), (n.load buffered reason random state).1 = .ok →
      ((start buffered reason random state n).run buffered calls).Atomic buffered := by
  intro h
  obtain ⟨newer, s, status, older, hsaved, -, hload⟩ := h false 1 keyed.mealKey {}
    (Nvs.powerOn {} 0) [publicationUnseen, cutAfterFirstPart] (by decide)
  have hmixed : Holds ((start false 1 keyed.mealKey {} (Nvs.powerOn {} 0)).run false
      [publicationUnseen, cutAfterFirstPart]).flash 2 { young with settings := grown.settings } :=
    ⟨by decide, fun space => by cases space <;> rfl⟩
  have hloaded := load_holds_ok hmixed (by decide) (by decide) false 1 keyed.mealKey {} 0
  have hstate := (hload 1 0 keyed.mealKey {}).2.symm.trans hloaded.2
  have hbright : s.settings.brightness = 80 := congrArg (·.settings.brightness) hstate
  have hxp : s.pet.xp = 1 := congrArg (·.pet.xp) hstate
  have hmem : (s, status) ∈ ((start false 1 keyed.mealKey {} (Nvs.powerOn {} 0)).run false
      [publicationUnseen, cutAfterFirstPart]).saved := by
    rw [hsaved]
    exact List.mem_append_right _ List.mem_cons_self
  have hnone : ∀ entry ∈ ((start false 1 keyed.mealKey {} (Nvs.powerOn {} 0)).run false
      [publicationUnseen, cutAfterFirstPart]).saved,
      ¬ (entry.1.settings.brightness = 80 ∧ entry.1.pet.xp = 1) := by decide
  exact hnone _ hmem ⟨hbright, hxp⟩

end Session
end Hound
