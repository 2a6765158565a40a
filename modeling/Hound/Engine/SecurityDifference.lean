import Hound.Engine.Tables
import Hound.Lib.Keyed

/-!
# Security differences against the access point table

The table holds one summary an address: that of the latest beacon or probe
response of the address that was remembered. A difference is found against these
summaries, and while no more addresses than slots have been remembered, against
the latest frame of every address.
-/

namespace Hound

/-- A beacon or a probe response that names its network. -/
def Observation.announces (o : Observation) : Bool :=
  o.radio == .Wifi && (o.subtype == 8 || o.subtype == 5) && !o.ssid.isEmpty

/-- What `remember_ap` keeps. -/
def Observation.remembered (o : Observation) : Bool := o.announces && !o.pwnagotchi

def Observation.summary (o : Observation) : Summary where
  ms := o.ms
  address := o.address
  ssid := o.ssid
  protectedNetwork := o.protectedNetwork
  rsnCaps := o.rsnCaps
  rssi := o.rssi
  channel := o.channel
  vendorFingerprint := o.vendorFingerprint

def apKey (a : AccessPoint) : Option Address := if a.used then some a.obs.address else none

/-- The latest remembered frame of an address; calls latest first. -/
def latestRemembered (k : Address) (past : List Tick) : Option Observation :=
  (past.map fun tick => tick.observation).find? fun o => o.remembered && o.address == k

def rememberedAddresses (ticks : List Tick) : Finset Address :=
  ((ticks.filter fun tick => tick.observation.remembered).map fun tick => tick.observation.address).toFinset

/-- Another address, at most thirty seconds ago, with the same name and the
opposite protection. -/
structure Differs (o : Observation) (s : Summary) : Prop where
  address : s.address ≠ o.address
  age : o.ms.toNat ≤ s.ms.toNat + 30000
  ssid : s.ssid = o.ssid
  protection : s.protectedNetwork ≠ o.protectedNetwork

/-- The table's one entry an address is the summary of its latest remembered frame. -/
structure ApTable (e : Engine) (past : List Tick) : Prop where
  unique : Keyed.Unique apKey e.aps
  latest : ∀ i k, apKey (e.aps i) = some k →
    ∃ f, latestRemembered k past = some f ∧ (e.aps i).obs = f.summary

/-! ## One frame -/

section Frame

variable {o : Observation} {e : Engine} {past : List Tick} {tick : Tick}

def Engine.apPlace (e : Engine) (o : Observation) : Fin 24 :=
  (Slots.first (fun a => a.used && a.obs.address == o.address) e.aps).getD
    ((Slots.first (fun a => !a.used) e.aps).getD
      (Slots.minElement (fun a b => decide (a.obs.ms < b.obs.ms)) e.aps))

theorem rememberAp_eq (e : Engine) (o : Observation) :
    (e.rememberAp o).aps = if o.remembered then
      Function.update e.aps (e.apPlace o) { used := true, obs := o.summary } else e.aps := by
  unfold Engine.rememberAp
  by_cases h : o.remembered = true
  · have hguard : (o.radio != .Wifi || (o.subtype != 8 && o.subtype != 5) || o.ssid.isEmpty ||
        o.pwnagotchi) = false := by
      simp only [Observation.remembered, Observation.announces, Bool.and_eq_true, beq_iff_eq,
        Bool.or_eq_true, Bool.not_eq_true'] at h
      obtain ⟨⟨⟨hradio, hsubtype⟩, hssid⟩, hpwn⟩ := h
      rcases hsubtype with hs | hs <;> simp [hradio, hs, hssid, hpwn]
    rw [hguard, if_pos h]
    rfl
  · have hguard : (o.radio != .Wifi || (o.subtype != 8 && o.subtype != 5) || o.ssid.isEmpty ||
        o.pwnagotchi) = true := by
      by_contra hno
      refine h ?_
      simp only [Bool.not_eq_true, Bool.or_eq_false_iff, bne_eq_false_iff_eq, Bool.and_eq_false_iff] at hno
      obtain ⟨⟨⟨hradio, hsubtype⟩, hssid⟩, hpwn⟩ := hno
      simp [Observation.remembered, Observation.announces, hradio, hsubtype, hssid, hpwn]
    rw [hguard, if_neg h]
    rfl

theorem apKey_eq_some {a : AccessPoint} {k : Address} :
    apKey a = some k ↔ a.used = true ∧ a.obs.address = k := by
  unfold apKey
  cases a.used <;> simp

theorem apKey_eq_none {a : AccessPoint} : apKey a = none ↔ (!a.used) = true := by
  unfold apKey
  cases a.used <;> simp

theorem apPlace_place (hunique : Keyed.Unique apKey e.aps) (o : Observation) :
    Keyed.Place apKey e.aps o.address (e.apPlace o) := by
  have hkey : ∀ a : AccessPoint, (a.used && a.obs.address == o.address) = true ↔
      apKey a = some o.address := by
    intro a
    rw [apKey_eq_some, Bool.and_eq_true, beq_iff_eq]
  unfold Engine.apPlace
  cases hown : Slots.first (fun a => a.used && a.obs.address == o.address) e.aps with
  | some i =>
    have hi := (hkey _).mp (Slots.first_sound hown)
    constructor
    · exact fun j hj => hunique j i _ hj hi
    · exact fun hne => absurd hi hne
  | none =>
    have hnone := Slots.first_eq_none.mp hown
    constructor
    · intro j hj
      have hother := hnone j
      rw [(hkey _).mpr hj] at hother
      exact nomatch hother
    · rintro - ⟨j, hj⟩
      cases hfirst : Slots.first (fun a => !a.used) e.aps with
      | none =>
        have hused := Slots.first_eq_none.mp hfirst j
        rw [apKey_eq_none.mp hj] at hused
        exact nomatch hused
      | some i => exact apKey_eq_none.mpr (Slots.first_sound hfirst)

/-! ## The table -/

theorem latestRemembered_own (h : tick.observation.remembered = true) :
    latestRemembered tick.observation.address (tick :: past) = some tick.observation := by
  unfold latestRemembered
  rw [List.map_cons, List.find?_cons_of_pos]
  simp [h]

theorem latestRemembered_other {k : Address}
    (h : tick.observation.remembered = true → tick.observation.address ≠ k) :
    latestRemembered k (tick :: past) = latestRemembered k past := by
  unfold latestRemembered
  rw [List.map_cons, List.find?_cons_of_neg]
  intro hk
  simp only [Bool.and_eq_true, beq_iff_eq] at hk
  exact h hk.1 hk.2

theorem latestRemembered_spec {k : Address} {f : Observation} (h : latestRemembered k past = some f) :
    f.remembered = true ∧ f.address = k ∧ ∃ tick ∈ past, tick.observation = f := by
  have hfound := List.find?_some h
  simp only [Bool.and_eq_true, beq_iff_eq] at hfound
  obtain ⟨tick, htick, hobservation⟩ := List.mem_map.mp (List.mem_of_find?_eq_some h)
  exact ⟨hfound.1, hfound.2, tick, htick, hobservation⟩

theorem next_aps (sort : SortFn Rule) (e : Engine) (tick : Tick) :
    (e.next sort tick).aps = (e.rememberAp tick.observation).aps :=
  (ingest_engine tick.settings tick.observation sort e tick.room).2.2

theorem apTable_start (rules : List Rule) : ApTable { rules } [] where
  unique _ _ _ hi := nomatch hi
  latest _ _ hi := nomatch hi

theorem ApTable.next (sort : SortFn Rule) (h : ApTable e past) : ApTable (e.next sort tick) (tick :: past) := by
  have haps := (next_aps sort e tick).trans (rememberAp_eq e tick.observation)
  by_cases hr : tick.observation.remembered = true
  · rw [if_pos hr] at haps
    have hplace := apPlace_place h.unique tick.observation
    have hkey : apKey { used := true, obs := tick.observation.summary } = some tick.observation.address :=
      rfl
    constructor
    · rw [haps]
      exact h.unique.update hkey hplace.alone
    · intro i k hi
      rw [haps] at hi ⊢
      by_cases hp : i = e.apPlace tick.observation
      · rw [hp, Function.update_self] at hi ⊢
        obtain rfl := Option.some.inj (hkey.symm.trans hi)
        exact ⟨tick.observation, latestRemembered_own hr, rfl⟩
      · rw [Function.update_of_ne hp] at hi ⊢
        rw [latestRemembered_other fun _ hk => hp (hplace.alone i (hk ▸ hi))]
        exact h.latest i k hi
  · rw [if_neg hr] at haps
    constructor
    · rw [haps]
      exact h.unique
    · intro i k hi
      rw [haps] at hi ⊢
      rw [latestRemembered_other fun hyes => absurd hyes hr]
      exact h.latest i k hi

/-- Every remembered address still has its entry. -/
structure AllRemembered (addresses : Finset Address) (e : Engine) (past : List Tick) : Prop where
  keys : ∀ i k, apKey (e.aps i) = some k → k ∈ addresses
  held : ∀ k f, latestRemembered k past = some f → ∃ i, apKey (e.aps i) = some k

theorem AllRemembered.next (sort : SortFn Rule) {addresses : Finset Address}
    (h : AllRemembered addresses e past) (hunique : Keyed.Unique apKey e.aps)
    (haddress : tick.observation.remembered = true → tick.observation.address ∈ addresses)
    (hcard : addresses.card ≤ 24) : AllRemembered addresses (e.next sort tick) (tick :: past) := by
  have haps := (next_aps sort e tick).trans (rememberAp_eq e tick.observation)
  by_cases hr : tick.observation.remembered = true
  · rw [if_pos hr] at haps
    have hplace := apPlace_place hunique tick.observation
    have hkey : apKey { used := true, obs := tick.observation.summary } = some tick.observation.address :=
      rfl
    constructor
    · rw [haps]
      exact Keyed.keys_update h.keys (haddress hr) hkey
    · intro k f hf
      rw [haps]
      by_cases hk : tick.observation.address = k
      · refine ⟨e.apPlace tick.observation, ?_⟩
        rw [Function.update_self, ← hk]
        exact hkey
      · rw [latestRemembered_other fun _ => hk] at hf
        exact hplace.held hunique h.keys (haddress hr) hcard hkey (h.held k f hf)
  · rw [if_neg hr] at haps
    constructor
    · rw [haps]
      exact h.keys
    · intro k f hf
      rw [latestRemembered_other fun hyes => absurd hyes hr] at hf
      rw [haps]
      exact h.held k f hf

/-! ## The match -/

theorem rival_iff {a : AccessPoint} (hpast : a.used = true → a.obs.ms ≤ o.ms) :
    Engine.rival o a = true ↔ a.used = true ∧ Differs o a.obs := by
  unfold Engine.rival
  simp only [Bool.and_eq_true, decide_eq_true_eq, bne_iff_ne, beq_iff_eq]
  constructor
  · rintro ⟨⟨⟨⟨⟨hused, hle⟩, hage⟩, haddress⟩, hssid⟩, hprotection⟩
    have hsub := UInt64.toNat_sub_of_le _ _ hle
    have hage' := UInt64.le_iff_toNat_le.mp hage
    rw [hsub] at hage'
    change o.ms.toNat - a.obs.ms.toNat ≤ 30000 at hage'
    exact ⟨hused, haddress, by omega, hssid.symm, Ne.symm hprotection⟩
  · rintro ⟨hused, hdiffers⟩
    have hle := hpast hused
    have hsub := UInt64.toNat_sub_of_le _ _ hle
    have hage := hdiffers.age
    refine ⟨⟨⟨⟨⟨hused, hle⟩, ?_⟩, hdiffers.address⟩, hdiffers.ssid.symm⟩, Ne.symm hdiffers.protection⟩
    rw [UInt64.le_iff_toNat_le, hsub]
    change o.ms.toNat - a.obs.ms.toNat ≤ 30000
    omega

/-- The two rules about differences; `corroborated` asks for two clues. -/
def securityRule (corroborated : Bool) (r : Rule) : Prop :=
  r.kind = .Behavior ∧
    r.value = if corroborated then ascii "security_corroborated" else ascii "security_downgrade"

theorem evaluate_security {corroborated : Bool} {r : Rule} (hr : securityRule corroborated r) :
    (e.evaluate r o).1 = true ↔ o.announces = true ∧
      ∃ i, Engine.rival o (e.aps i) = true ∧ (corroborated = true → 2 ≤ Engine.clues (e.aps i).obs o) := by
  obtain ⟨hkind, hvalue⟩ := hr
  have heval : (e.evaluate r o).1 =
      if o.radio != .Wifi then false else e.securityDifference corroborated o := by
    have hburst : (r.value == ascii "deauth_burst") = false := by
      rw [hvalue]
      cases corroborated <;> decide
    have hcorroborated : (ascii "security_corroborated" == ascii "security_downgrade") = false := by decide
    unfold Engine.evaluate Engine.behavior
    rw [hkind, hburst, hvalue]
    cases corroborated <;> cases o.radio <;> simp [hcorroborated]
  have hannounces : o.announces = true ↔ o.radio = .Wifi ∧
      ((o.subtype != 8 && o.subtype != 5) || o.ssid.isEmpty) = false := by
    unfold Observation.announces
    simp only [Bool.and_eq_true, beq_iff_eq, Bool.or_eq_true, Bool.not_eq_true', Bool.or_eq_false_iff,
      Bool.and_eq_false_iff, bne_eq_false_iff_eq, and_assoc]
  rw [heval, hannounces]
  unfold Engine.securityDifference
  cases hradio : (o.radio != .Wifi) with
  | true =>
    have hother : o.radio ≠ .Wifi := by simpa using hradio
    simp [hother]
  | false =>
    have hwifi : o.radio = .Wifi := by simpa using hradio
    cases hguard : ((o.subtype != 8 && o.subtype != 5) || o.ssid.isEmpty) with
    | true => simp
    | false => cases corroborated <;> simp [hwifi]

/-- In its place the rule is evaluated against the table the call began with. -/
theorem matchesAfter_security (above : List Rule) {corroborated : Bool} {r : Rule}
    (hr : securityRule corroborated r) :
    e.matchesAfter tick above r = true ↔ tick.observation.announces = true ∧
      ∃ i, Engine.rival tick.observation (e.aps i) = true ∧
        (corroborated = true → 2 ≤ Engine.clues (e.aps i).obs tick.observation) := by
  have haps := (fold_tables tick.settings tick.observation above { engine := e }).aps
  unfold Engine.matchesAfter
  rw [evaluate_security hr, haps]

end Frame

/-! ## Runs -/

section Runs

variable {sort : SortFn Rule} {rules : List Rule}

theorem apTable_run (ticks : List Tick) :
    ApTable (Runs.run (Engine.next sort) { rules } ticks) ticks.reverse := by
  induction ticks using List.reverseRecOn with
  | nil => exact apTable_start rules
  | append_singleton ticks tick ih =>
    rw [Runs.run_concat, List.reverse_append]
    exact ih.next sort

theorem allRemembered_run (addresses : Finset Address) (hcard : addresses.card ≤ 24) (ticks : List Tick)
    (haddresses : ∀ tick ∈ ticks, tick.observation.remembered = true →
      tick.observation.address ∈ addresses) :
    AllRemembered addresses (Runs.run (Engine.next sort) { rules } ticks) ticks.reverse := by
  induction ticks using List.reverseRecOn with
  | nil =>
    constructor
    · exact fun _ _ hi => nomatch hi
    · exact fun _ _ hf => nomatch hf
  | append_singleton ticks tick ih =>
    have hrest := ih fun t ht => haddresses t (List.mem_append_left _ ht)
    rw [Runs.run_concat, List.reverse_append]
    exact hrest.next sort (apTable_run ticks).unique (haddresses tick (by simp)) hcard

theorem mem_rememberedAddresses {ticks : List Tick} {tick : Tick} (hmem : tick ∈ ticks)
    (hr : tick.observation.remembered = true) : tick.observation.address ∈ rememberedAddresses ticks := by
  unfold rememberedAddresses
  rw [List.mem_toFinset]
  exact List.mem_map_of_mem (List.mem_filter.mpr ⟨hmem, hr⟩)

end Runs

/-- With times in order, the table holds for each address in it the latest frame
remembered of it, and `security_downgrade` matches exactly when a recent entry of
another address differs. While twenty-four addresses or fewer have been
remembered, the latest frames of all of them are compared. The corroborated rule
matches only where this one does. -/
theorem security_downgrade_exact (sort : SortFn Rule) (rules : List Rule) (before : List Tick) (tick : Tick)
    (hordered : Monotone (before ++ [tick])) (above : List Rule) (r : Rule)
    (hr : securityRule false r) :
    let e := Runs.run (Engine.next sort) { rules } before
    let o := tick.observation
    ApTable e before.reverse ∧
    (e.matchesAfter tick above r = true ↔ o.announces = true ∧
      ∃ i, (e.aps i).used = true ∧ Differs o (e.aps i).obs) ∧
    ((rememberedAddresses before).card ≤ 24 →
      (e.matchesAfter tick above r = true ↔ o.announces = true ∧
        ∃ k f, latestRemembered k before.reverse = some f ∧ Differs o f.summary)) ∧
    ∀ above' r', securityRule true r' → e.matchesAfter tick above' r' = true →
      e.matchesAfter tick above r = true := by
  intro e o
  have htable : ApTable e before.reverse := apTable_run before
  have hpast : ∀ i, (e.aps i).used = true → (e.aps i).obs.ms ≤ o.ms := by
    intro i hused
    obtain ⟨f, hf, hobs⟩ := htable.latest i _ (apKey_eq_some.mpr ⟨hused, rfl⟩)
    obtain ⟨-, -, earlier, hearlier, rfl⟩ := latestRemembered_spec hf
    rw [hobs]
    exact (List.pairwise_append.mp hordered).2.2 earlier (List.mem_reverse.mp hearlier) tick
      (List.mem_singleton_self tick)
  have hmatch : e.matchesAfter tick above r = true ↔ o.announces = true ∧
      ∃ i, (e.aps i).used = true ∧ Differs o (e.aps i).obs := by
    rw [matchesAfter_security above hr]
    refine and_congr_right fun _ => exists_congr fun i => ?_
    rw [rival_iff (hpast i)]
    simp
  refine ⟨htable, hmatch, fun hcard => ?_, fun above' r' hr' hcorroborated => ?_⟩
  · have hall : AllRemembered (rememberedAddresses before) e before.reverse :=
      allRemembered_run _ hcard before fun t ht => mem_rememberedAddresses ht
    rw [hmatch]
    refine and_congr_right fun _ => ?_
    constructor
    · rintro ⟨i, hused, hdiffers⟩
      obtain ⟨f, hf, hobs⟩ := htable.latest i _ (apKey_eq_some.mpr ⟨hused, rfl⟩)
      exact ⟨_, f, hf, hobs ▸ hdiffers⟩
    · rintro ⟨k, f, hf, hdiffers⟩
      obtain ⟨i, hi⟩ := hall.held k f hf
      obtain ⟨f', hf', hobs⟩ := htable.latest i k hi
      obtain rfl := Option.some.inj (hf'.symm.trans hf)
      refine ⟨i, (apKey_eq_some.mp hi).1, ?_⟩
      rw [hobs]
      exact hdiffers
  · obtain ⟨hannounces, i, hrival, -⟩ := (matchesAfter_security above' hr').mp hcorroborated
    exact (matchesAfter_security above hr).mpr ⟨hannounces, i, hrival, nofun⟩

def downgradeRule : Rule where
  id := ascii "wifi.behavior.security"
  category := .EVIL_TWIN
  kind := .Behavior
  value := ascii "security_downgrade"
  score := 60
  cap := 79
  generic := false
  label := ascii "Possible evil twin"
  reason := []

/-- A beacon of network `x` from the address that ends in `last`. -/
def announced (ms : UInt64) (last : UInt8) (protectedNetwork : Bool) : Tick where
  observation :=
    { radio := .Wifi, subtype := 8, ms, address := #v[0, 0, 0, 0, 0, last], ssid := ascii "x",
      protectedNetwork }

/-- An open network beside a protected one of its name. -/
theorem security_downgrade_exact_open :
    (Runs.run (Engine.next .insertion) { rules := [downgradeRule] } [announced 1000 1 true]).matchesAfter
      (announced 2000 2 false) [] downgradeRule = true :=
  (security_downgrade_exact .insertion [downgradeRule] [announced 1000 1 true] (announced 2000 2 false)
    (by decide) [] downgradeRule ⟨rfl, rfl⟩).2.2.1 (by decide) |>.mpr
      ⟨rfl, #v[0, 0, 0, 0, 0, 1], (announced 1000 1 true).observation, by decide, by decide, by decide,
        rfl, by decide⟩

end Hound
