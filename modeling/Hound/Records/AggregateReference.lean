import Hound.Records.AggregateLogs

/-!
# The reference aggregate

What a sighting says about the rows of its identity, without tables or order.
The upserts and the query compute it from any order and any number of copies of
the rows.
-/

namespace Hound.Host

/-- The sum over the episodes of the greatest count of each. -/
def IsTotal (rows : Finset SanitizedRow) (n : Int) : Prop :=
  ∃ most : Int → Int,
    (∀ f ∈ rows.image SanitizedRow.firstSeenMs,
      IsGreatest (SanitizedRow.seenCount '' {r | r ∈ rows ∧ r.firstSeenMs = f}) (most f)) ∧
    n = ∑ f ∈ rows.image SanitizedRow.firstSeenMs, most f

/-- The aggregate of the rows of one identity. -/
structure IsReference (rows : Finset SanitizedRow) (s : Sighting) : Prop where
  first : IsLeast (SanitizedRow.firstSeenMs '' {r | r ∈ rows}) s.firstSeenMs
  last : IsGreatest (SanitizedRow.lastSeenMs '' {r | r ∈ rows}) s.lastSeenMs
  seen : IsTotal rows s.seenCount
  score : IsGreatest (SanitizedRow.score '' {r | r ∈ rows}) s.score
  rssiMin : IsLeast (SanitizedRow.rssiMin '' {r | r ∈ rows}) s.rssiMin
  rssiMax : IsGreatest (SanitizedRow.rssiMax '' {r | r ∈ rows}) s.rssiMax
  confidence : s.confidence = confidenceOf s.score
  rest : ∃ r ∈ rows, r.lastSeenMs = s.lastSeenMs ∧
    s.toSanitizedRow =
      { r with
        firstSeenMs := s.firstSeenMs, lastSeenMs := s.lastSeenMs, score := s.score, rssiMin := s.rssiMin
        rssiMax := s.rssiMax, seenCount := s.seenCount }
  constants : s.schemaVersion = 1 ∧ s.hardware = codes "E32R40T" ∧ s.latitude = none ∧ s.longitude = none ∧
    s.locationSource = codes "none" ∧ s.privacyMode = codes "sanitized"

/-- No two different rows of one identity end at one time. -/
def Untied (rows : Finset SanitizedRow) : Prop :=
  ∀ r ∈ rows, ∀ r' ∈ rows, identity r = identity r' → r.lastSeenMs = r'.lastSeenMs → r = r'

/-- The rows of an identity. -/
def rowsWith (rows : Finset SanitizedRow) (i : Str) : Finset SanitizedRow := rows.filter fun r => identity r = i

theorem mem_rowsWith {rows : Finset SanitizedRow} {i : Str} {r : SanitizedRow} :
    r ∈ rowsWith rows i ↔ r ∈ rows ∧ identity r = i := Finset.mem_filter

/-! ## One reference a set of rows -/

theorem IsTotal.unique {rows : Finset SanitizedRow} {m n : Int} (h : IsTotal rows m) (h' : IsTotal rows n) : m = n := by
  obtain ⟨most, hmost, rfl⟩ := h
  obtain ⟨most', hmost', rfl⟩ := h'
  exact Finset.sum_congr rfl fun f hf => (hmost f hf).unique (hmost' f hf)

theorem IsReference.unique {rows : Finset SanitizedRow} {s s' : Sighting}
    (huntied : ∀ r ∈ rows, ∀ r' ∈ rows, r.lastSeenMs = r'.lastSeenMs → r = r')
    (h : IsReference rows s) (h' : IsReference rows s') : s = s' := by
  have hfirst := h.first.unique h'.first
  have hlast := h.last.unique h'.last
  have hseen := h.seen.unique h'.seen
  have hscore := h.score.unique h'.score
  have hmin := h.rssiMin.unique h'.rssiMin
  have hmax := h.rssiMax.unique h'.rssiMax
  have hrow : s.toSanitizedRow = s'.toSanitizedRow := by
    obtain ⟨r, hr, hrlast, hs⟩ := h.rest
    obtain ⟨r', hr', hrlast', hs'⟩ := h'.rest
    have hsame : r = r' := huntied r hr r' hr' (by rw [hrlast, hrlast', hlast])
    rw [hs, hs', hsame, hfirst, hlast, hseen, hscore, hmin, hmax]
  obtain ⟨hversion, hhardware, hlatitude, hlongitude, hsource, hmode⟩ := h.constants
  obtain ⟨hversion', hhardware', hlatitude', hlongitude', hsource', hmode'⟩ := h'.constants
  have hconfidence : s.confidence = s'.confidence := by rw [h.confidence, h'.confidence, hscore]
  cases s
  cases s'
  simp_all

/-! ## The table of episodes -/

/-- What the columns of an episode are to its rows. -/
structure EpisodeSums (rows : Set SanitizedRow) (e : Episode) : Prop where
  last : IsGreatest (SanitizedRow.lastSeenMs '' rows) e.last
  seen : IsGreatest (SanitizedRow.seenCount '' rows) e.seen
  score : IsGreatest (SanitizedRow.score '' rows) e.score
  rmin : IsLeast (SanitizedRow.rssiMin '' rows) e.rmin
  rmax : IsGreatest (SanitizedRow.rssiMax '' rows) e.rmax
  row : e.row ∈ rows ∧ e.row.lastSeenMs = e.last

theorem insert_sums (row : SanitizedRow) : EpisodeSums {row} (Episode.insert row) := by
  have hgreatest : ∀ f : SanitizedRow → Int, IsGreatest (f '' {row}) (f row) := by
    intro f
    rw [Set.image_singleton]
    exact isGreatest_singleton
  refine ⟨hgreatest _, hgreatest _, hgreatest _, ?_, hgreatest _, rfl, rfl⟩
  rw [Set.image_singleton]
  exact isLeast_singleton

theorem update_sums {rows : Set SanitizedRow} {e : Episode} (h : EpisodeSums rows e) (excluded : SanitizedRow) :
    EpisodeSums (insert excluded rows) (e.update excluded) := by
  have hgreatest : ∀ {f : SanitizedRow → Int} {x : Int}, IsGreatest (f '' rows) x →
      IsGreatest (f '' insert excluded rows) (max x (f excluded)) := by
    intro f x hx
    rw [Set.image_insert_eq, max_comm]
    exact hx.insert _
  refine ⟨hgreatest h.last, hgreatest h.seen, hgreatest h.score, ?_, hgreatest h.rmax, ?_⟩
  · rw [Set.image_insert_eq]
    change IsLeast _ (min e.rmin excluded.rssiMin)
    rw [min_comm]
    exact h.rmin.insert _
  · change (if e.last ≤ excluded.lastSeenMs then excluded else e.row) ∈ _ ∧
      (if e.last ≤ excluded.lastSeenMs then excluded else e.row).lastSeenMs = max e.last excluded.lastSeenMs
    split
    · rename_i hlater
      exact ⟨Set.mem_insert _ _, (max_eq_right hlater).symm⟩
    · rename_i hearlier
      refine ⟨Set.mem_insert_of_mem _ h.row.1, ?_⟩
      rw [h.row.2, max_eq_left (le_of_not_ge hearlier)]

theorem episodes_sums (rows : List SanitizedRow) :
    Upsert.Sums episodeKey (fun rs e => EpisodeSums {r | r ∈ rs} e) (rows.foldl insertRow []) rows := by
  refine Upsert.sums_table ?_ ?_ rows
  · intro r
    have hone : {r' | r' ∈ [r]} = ({r} : Set SanitizedRow) := by
      ext r'
      exact List.mem_singleton
    rw [hone]
    exact insert_sums r
  · intro rs e r h
    have hmore : {r' | r' ∈ rs ++ [r]} = insert r {r' | r' ∈ rs} := by
      ext r'
      simp [or_comm]
    rw [hmore]
    exact update_sums h r

/-! ## The groups -/

/-- The episodes of a set of rows, one for each first time. -/
structure Grouped (rows : Finset SanitizedRow) (group : List (Int × Episode)) : Prop where
  nodup : (group.map Prod.fst).Nodup
  firsts : ∀ f, f ∈ group.map Prod.fst ↔ f ∈ rows.image SanitizedRow.firstSeenMs
  sums : ∀ m ∈ group, EpisodeSums {r | r ∈ rows ∧ r.firstSeenMs = m.1} m.2

theorem members_grouped (rows : List SanitizedRow) (i : Str) :
    Grouped (rowsWith rows.toFinset i) (members (rows.foldl insertRow []) i) := by
  have htable := episodes_sums rows
  have hkeys : (members (rows.foldl insertRow []) i).map Prod.fst =
      (((rows.foldl insertRow []).filter fun e => e.1.1 == i).map Prod.fst).map Prod.snd := by
    simp [members, List.map_map, Function.comp_def]
  have hmem : ∀ k, k ∈ ((rows.foldl insertRow []).filter fun e => e.1.1 == i).map Prod.fst ↔
      k.1 = i ∧ k ∈ (rows.foldl insertRow []).map Prod.fst := by
    intro k
    simp only [List.mem_map, List.mem_filter, beq_iff_eq]
    constructor
    · rintro ⟨e, ⟨he, hi⟩, rfl⟩
      exact ⟨hi, e, he, rfl⟩
    · rintro ⟨hi, e, he, rfl⟩
      exact ⟨e, ⟨he, hi⟩, rfl⟩
  refine ⟨?_, ?_, ?_⟩
  · rw [hkeys]
    refine List.Nodup.map_on ?_ ((htable.nodup.sublist (List.filter_sublist.map _)))
    intro k hk k' hk' heq
    exact Prod.ext (((hmem k).mp hk).1.trans ((hmem k').mp hk').1.symm) heq
  · intro f
    rw [hkeys]
    simp only [List.mem_map (f := Prod.snd), hmem, htable.keys, Finset.mem_image, mem_rowsWith, List.mem_toFinset]
    constructor
    · rintro ⟨k, ⟨hi, r, hr, rfl⟩, rfl⟩
      exact ⟨r, ⟨hr, hi⟩, rfl⟩
    · rintro ⟨r, ⟨hr, hi⟩, rfl⟩
      exact ⟨episodeKey r, ⟨hi, r, hr, rfl⟩, rfl⟩
  · intro m hm
    simp only [members, List.mem_map, List.mem_filter, beq_iff_eq] at hm
    obtain ⟨e, ⟨he, hi⟩, rfl⟩ := hm
    have hsum := htable.sum e he
    have hrows : {r | r ∈ rows.filter fun r => episodeKey r = e.1} =
        {r | r ∈ rowsWith rows.toFinset i ∧ r.firstSeenMs = e.1.2} := by
      ext r
      simp [mem_rowsWith, episodeKey, Prod.ext_iff, hi, and_assoc]
    rw [← hrows]
    exact hsum

theorem lookup_of_mem {α β : Type} [DecidableEq α] {t : List (α × β)} (h : (t.map Prod.fst).Nodup) {e : α × β}
    (he : e ∈ t) : t.lookup e.1 = some e.2 := by
  induction t with
  | nil => exact absurd he List.not_mem_nil
  | cons a t ih =>
    obtain ⟨hhead, htail⟩ := List.nodup_cons.mp h
    rcases List.mem_cons.mp he with rfl | he
    · exact List.lookup_cons_self
    · have hne : e.1 ≠ a.1 := fun heq => hhead (heq ▸ List.mem_map_of_mem he)
      rw [List.lookup_cons, beq_false_of_ne hne]
      exact ih htail he

namespace Grouped

variable {rows : Finset SanitizedRow} {group : List (Int × Episode)}

theorem member_of_row (h : Grouped rows group) {r : SanitizedRow} (hr : r ∈ rows) :
    ∃ m ∈ group, m.1 = r.firstSeenMs := by
  obtain ⟨m, hm, hfirst⟩ := List.mem_map.mp ((h.firsts r.firstSeenMs).mpr (Finset.mem_image_of_mem _ hr))
  exact ⟨m, hm, hfirst⟩

/-- The greatest of the episodes' greatest is the greatest. -/
theorem isGreatest (h : Grouped rows group) {f : SanitizedRow → Int} {g : Episode → Int}
    (hsum : ∀ {R e}, EpisodeSums R e → IsGreatest (f '' R) (g e)) {x : Int}
    (hx : (group.map fun m => g m.2).max? = some x) : IsGreatest (f '' {r | r ∈ rows}) x := by
  obtain ⟨hmem, hle⟩ := List.max?_eq_some_iff.mp hx
  constructor
  · obtain ⟨m, hm, rfl⟩ := List.mem_map.mp hmem
    obtain ⟨r, hr, heq⟩ := (hsum (h.sums m hm)).1
    exact ⟨r, hr.1, heq⟩
  · rintro y ⟨r, hr, rfl⟩
    obtain ⟨m, hm, hfirst⟩ := h.member_of_row hr
    exact Int.le_trans ((hsum (h.sums m hm)).2 ⟨r, ⟨hr, hfirst.symm⟩, rfl⟩) (hle _ (List.mem_map.mpr ⟨m, hm, rfl⟩))

theorem isLeast (h : Grouped rows group) {f : SanitizedRow → Int} {g : Episode → Int}
    (hsum : ∀ {R e}, EpisodeSums R e → IsLeast (f '' R) (g e)) {x : Int}
    (hx : (group.map fun m => g m.2).min? = some x) : IsLeast (f '' {r | r ∈ rows}) x := by
  obtain ⟨hmem, hle⟩ := List.min?_eq_some_iff.mp hx
  constructor
  · obtain ⟨m, hm, rfl⟩ := List.mem_map.mp hmem
    obtain ⟨r, hr, heq⟩ := (hsum (h.sums m hm)).1
    exact ⟨r, hr.1, heq⟩
  · rintro y ⟨r, hr, rfl⟩
    obtain ⟨m, hm, hfirst⟩ := h.member_of_row hr
    exact Int.le_trans (hle _ (List.mem_map.mpr ⟨m, hm, rfl⟩)) ((hsum (h.sums m hm)).2 ⟨r, ⟨hr, hfirst.symm⟩, rfl⟩)

theorem isLeast_first (h : Grouped rows group) {x : Int} (hx : (group.map Prod.fst).min? = some x) :
    IsLeast (SanitizedRow.firstSeenMs '' {r | r ∈ rows}) x := by
  obtain ⟨hmem, hle⟩ := List.min?_eq_some_iff.mp hx
  constructor
  · obtain ⟨r, hr, heq⟩ := Finset.mem_image.mp ((h.firsts x).mp hmem)
    exact ⟨r, hr, heq⟩
  · rintro y ⟨r, hr, rfl⟩
    exact hle _ ((h.firsts _).mpr (Finset.mem_image_of_mem _ hr))

/-- The count of the episode that began at `f`. -/
def most (group : List (Int × Episode)) (f : Int) : Int := ((group.lookup f).map Episode.seen).getD 0

theorem most_of_mem (h : Grouped rows group) {m : Int × Episode} (hm : m ∈ group) : most group m.1 = m.2.seen := by
  rw [most, lookup_of_mem h.nodup hm]
  rfl

/-- The first times are distinct, so the sum over the list is the sum over the set. -/
theorem isTotal (h : Grouped rows group) : IsTotal rows (group.map fun m => m.2.seen).sum := by
  refine ⟨most group, ?_, ?_⟩
  · intro f hf
    obtain ⟨m, hm, rfl⟩ := List.mem_map.mp ((h.firsts f).mpr hf)
    rw [h.most_of_mem hm]
    exact (h.sums m hm).seen
  · have hset : rows.image SanitizedRow.firstSeenMs = (group.map Prod.fst).toFinset := by
      ext f
      rw [List.mem_toFinset, h.firsts]
    rw [hset, List.sum_toFinset _ h.nodup, List.map_map]
    refine congrArg List.sum (List.map_congr_left fun m hm => ?_)
    exact (h.most_of_mem hm).symm

theorem latest (h : Grouped rows group) (latest : LatestFirst) {e : Episode}
    (he : latest.pick (group.map Prod.snd) = some e) {x : Int} (hx : (group.map fun m => m.2.last).max? = some x) :
    e.row ∈ rows ∧ e.row.lastSeenMs = x := by
  obtain ⟨hmem, hle⟩ := latest.greatest _ _ he
  obtain ⟨m, hm, rfl⟩ := List.mem_map.mp hmem
  obtain ⟨hlast, hall⟩ := List.max?_eq_some_iff.mp hx
  have hrow := (h.sums m hm).row
  refine ⟨hrow.1.1, hrow.2.trans (Int.le_antisymm (hall _ (List.mem_map.mpr ⟨m, hm, rfl⟩)) ?_)⟩
  obtain ⟨m', hm', rfl⟩ := List.mem_map.mp hlast
  exact hle m'.2 (List.mem_map_of_mem hm')

/-- The tuple of a group is its reference, whatever its total is. -/
theorem selected_reference (h : Grouped rows group) {latest : LatestFirst} {g : Selected}
    (hg : selected latest group = some g) : IsReference rows g.sighting := by
  unfold selected at hg
  simp only [bind, Option.bind_eq_some_iff, pure, Option.some.injEq] at hg
  obtain ⟨e, he, first, hfirst, last, hlast, score, hscore, rmin, hrmin, rmax, hrmax, rfl⟩ := hg
  obtain ⟨hrow, hrowlast⟩ := h.latest latest he hlast
  exact {
    first := h.isLeast_first hfirst
    last := h.isGreatest EpisodeSums.last hlast
    seen := h.isTotal
    score := h.isGreatest EpisodeSums.score hscore
    rssiMin := h.isLeast EpisodeSums.rmin hrmin
    rssiMax := h.isGreatest EpisodeSums.rmax hrmax
    confidence := rfl
    rest := ⟨e.row, hrow, hrowlast, rfl⟩
    constants := ⟨rfl, rfl, rfl, rfl, rfl, rfl⟩ }

end Grouped

theorem selected_isSome {group : List (Int × Episode)} (latest : LatestFirst) (hne : group ≠ []) : ∃ g, selected latest group = some g := by
  have hmap : ∀ {β : Type} (f : Int × Episode → β), group.map f ≠ [] := fun f hnil => hne (List.map_eq_nil_iff.mp hnil)
  have hmax : ∀ f : Int × Episode → Int, ∃ x, (group.map f).max? = some x := fun f =>
    Option.isSome_iff_exists.mp (List.isSome_max?_of_ne_nil (hmap f))
  have hmin : ∀ f : Int × Episode → Int, ∃ x, (group.map f).min? = some x := fun f =>
    Option.isSome_iff_exists.mp (List.isSome_min?_of_ne_nil (hmap f))
  obtain ⟨first, hfirst⟩ := hmin Prod.fst
  obtain ⟨last, hlast⟩ := hmax fun m => m.2.last
  obtain ⟨score, hscore⟩ := hmax fun m => m.2.score
  obtain ⟨rmin, hrmin⟩ := hmin fun m => m.2.rmin
  obtain ⟨rmax, hrmax⟩ := hmax fun m => m.2.rmax
  cases hpick : latest.pick (group.map Prod.snd) with
  | none => exact absurd (latest.total _ hpick) (hmap Prod.snd)
  | some e =>
    refine ⟨⟨e.row, first, last, (group.map fun m => m.2.seen).sum, score, rmin, rmax⟩, ?_⟩
    simp [selected, hpick, hfirst, hlast, hscore, hrmin, hrmax]

/-! ## The query over the whole table -/

/-- The groups are the identities of the rows in their order. -/
theorem groups_eq (rows : List SanitizedRow) :
    groups (rows.foldl insertRow []) = (rows.toFinset.image identity).sort (· ≤ ·) := by
  have hperm : (groups (rows.foldl insertRow [])).Perm ((rows.toFinset.image identity).sort (· ≤ ·)) := by
    refine (List.perm_insertionSort _ _).trans ?_
    refine (List.perm_ext_iff_of_nodup (List.nodup_dedup _) (Finset.sort_nodup _ _)).mpr fun i => ?_
    have hkeys := (episodes_sums rows).keys
    simp only [List.mem_dedup, Finset.mem_sort, Finset.mem_image, List.mem_toFinset]
    constructor
    · intro hi
      obtain ⟨e, he, rfl⟩ := List.mem_map.mp hi
      obtain ⟨r, hr, hkey⟩ := (hkeys e.1).mp (List.mem_map_of_mem he)
      exact ⟨r, hr, congrArg Prod.fst hkey⟩
    · rintro ⟨r, hr, rfl⟩
      obtain ⟨e, he, hkey⟩ := List.mem_map.mp ((hkeys (episodeKey r)).mpr ⟨r, hr, rfl⟩)
      exact List.mem_map.mpr ⟨e, he, congrArg Prod.fst hkey⟩
  exact hperm.eq_of_pairwise' (List.pairwise_insertionSort _ _) (Finset.pairwise_sort _ _)

theorem forall₂_filterMap {α β : Type} {R : α → β → Prop} {f : α → Option β} {l : List α}
    (h : ∀ a ∈ l, ∃ b, f a = some b ∧ R a b) : List.Forall₂ R l (l.filterMap f) := by
  induction l with
  | nil => exact List.Forall₂.nil
  | cons a l ih =>
    obtain ⟨b, hb, hR⟩ := h a List.mem_cons_self
    rw [List.filterMap_cons_some hb]
    exact List.Forall₂.cons hR (ih fun a ha => h a (List.mem_cons_of_mem _ ha))

/-- A property of related elements that either side can tell. -/
theorem forall₂_forall_iff {α β : Type} {R : α → β → Prop} {P : α → Prop} {Q : β → Prop}
    (hiff : ∀ a b, R a b → (P a ↔ Q b)) {l : List α} {m : List β} (h : List.Forall₂ R l m) :
    (∀ a ∈ l, P a) ↔ ∀ b ∈ m, Q b := by
  induction h with
  | nil => simp
  | cons hhead _ ih => rw [List.forall_mem_cons, List.forall_mem_cons, hiff _ _ hhead, ih]

/-- The sightings of the groups, whatever their totals are. -/
def sightings (latest : LatestFirst) (rows : List SanitizedRow) : List Sighting :=
  ((groups (rows.foldl insertRow [])).filterMap fun i => selected latest (members (rows.foldl insertRow []) i)).map
    Selected.sighting

theorem sightings_reference (latest : LatestFirst) (rows : List SanitizedRow) :
    List.Forall₂ (fun i s => IsReference (rowsWith rows.toFinset i) s) ((rows.toFinset.image identity).sort (· ≤ ·))
      (sightings latest rows) := by
  unfold sightings
  rw [groups_eq, List.forall₂_map_right_iff]
  refine forall₂_filterMap fun i hi => ?_
  have hgroup := members_grouped rows i
  obtain ⟨r, hr, hri⟩ := Finset.mem_image.mp ((Finset.mem_sort _).mp hi)
  have hne : members (rows.foldl insertRow []) i ≠ [] := by
    obtain ⟨m, hm, -⟩ := hgroup.member_of_row (mem_rowsWith.mpr ⟨hr, hri⟩)
    exact List.ne_nil_of_mem hm
  obtain ⟨g, hg⟩ := selected_isSome latest hne
  exact ⟨g, hg, hgroup.selected_reference hg⟩

theorem writeRows_eq (gs : List Selected) :
    writeRows gs =
      if ∀ s ∈ gs.map Selected.sighting, s.seenCount ≤ 2 ^ 63 - 1 then .ok (gs.map Selected.sighting)
      else .error "integer overflow" := by
  induction gs with
  | nil => rfl
  | cons g gs ih =>
    have hcons : (∀ s ∈ (g :: gs).map Selected.sighting, s.seenCount ≤ 2 ^ 63 - 1) ↔
        g.count ≤ 2 ^ 63 - 1 ∧ ∀ s ∈ gs.map Selected.sighting, s.seenCount ≤ 2 ^ 63 - 1 := List.forall_mem_cons
    unfold writeRows Selected.written
    rw [ih]
    by_cases hg : g.count ≤ 2 ^ 63 - 1
    · by_cases hgs : ∀ s ∈ gs.map Selected.sighting, s.seenCount ≤ 2 ^ 63 - 1
      · rw [if_pos hg, if_pos hgs, if_pos (hcons.mpr ⟨hg, hgs⟩)]
        rfl
      · rw [if_pos hg, if_neg hgs, if_neg fun hall => hgs (hcons.mp hall).2]
        rfl
    · rw [if_neg hg, if_neg fun hall => hg (hcons.mp hall).1]
      rfl

/-- What `export` writes, in terms of the rows it read. -/
theorem exportLogs_eq {clean : Cleaner} (latest : LatestFirst) {log : Log} (hlog : log ≠ [])
    (hvalid : ∀ line ∈ log.lines, ValidLine clean line) :
    exportLogs clean latest log.files =
      if ∀ s ∈ sightings latest (rowsOf clean log.lines), s.seenCount ≤ 2 ^ 63 - 1 then
        .ok (sightings latest (rowsOf clean log.lines))
      else .error "integer overflow" := by
  have hfiles : log.files.isEmpty = false := by
    simpa [Log.files, List.isEmpty_iff] using hlog
  unfold exportLogs
  rw [hfiles, readLogs_lines hvalid []]
  exact writeRows_eq _

/-- Rows of the same lines are the same. -/
theorem rowsOf_toFinset (clean : Cleaner) {lines lines' : List Bytes} (h : ∀ line, line ∈ lines' ↔ line ∈ lines) :
    (rowsOf clean lines').toFinset = (rowsOf clean lines).toFinset := by
  ext row
  simp [rowsOf, h]

/-- The sightings depend on the set of lines alone, and each is the reference
aggregate of its identity. Nothing is written only where a total leaves 64 bits. -/
theorem aggregate_order_free (loads : Bytes → Except String PyValue) (digest : Bytes → Digest)
    (catalog : List SignatureEntry) (latest latest' : LatestFirst) {log log' : Log} (hlog : log ≠ [])
    (hlog' : log' ≠ []) (hvalid : ∀ line ∈ log.lines, ValidLine (cleanLine loads digest catalog) line)
    (hsame : ∀ line, line ∈ log'.lines ↔ line ∈ log.lines)
    (huntied : Untied (rowsOf (cleanLine loads digest catalog) log.lines).toFinset) :
    let rows := (rowsOf (cleanLine loads digest catalog) log.lines).toFinset
    exportLogs (cleanLine loads digest catalog) latest' log'.files =
        exportLogs (cleanLine loads digest catalog) latest log.files ∧
      (∀ sightings, exportLogs (cleanLine loads digest catalog) latest log.files = .ok sightings →
        List.Forall₂ (fun i s => IsReference (rowsWith rows i) s) ((rows.image identity).sort (· ≤ ·)) sightings) ∧
      ((∃ sightings, exportLogs (cleanLine loads digest catalog) latest log.files = .ok sightings) ↔
        ∀ i ∈ rows.image identity, ∃ n, IsTotal (rowsWith rows i) n ∧ n ≤ 2 ^ 63 - 1) := by
  intro rows
  have hvalid' : ∀ line ∈ log'.lines, ValidLine (cleanLine loads digest catalog) line :=
    fun line hline => hvalid line ((hsame line).mp hline)
  have href := sightings_reference latest (rowsOf (cleanLine loads digest catalog) log.lines)
  have href' := sightings_reference latest' (rowsOf (cleanLine loads digest catalog) log'.lines)
  rw [rowsOf_toFinset _ hsame] at href'
  have hunique : ∀ i s s', IsReference (rowsWith rows i) s → IsReference (rowsWith rows i) s' → s = s' := by
    intro i s s' h h'
    refine IsReference.unique ?_ h h'
    intro r hr r' hr' hlast
    obtain ⟨hr, hi⟩ := mem_rowsWith.mp hr
    obtain ⟨hr', hi'⟩ := mem_rowsWith.mp hr'
    exact huntied r hr r' hr' (hi.trans hi'.symm) hlast
  have heq : sightings latest' (rowsOf (cleanLine loads digest catalog) log'.lines) =
      sightings latest (rowsOf (cleanLine loads digest catalog) log.lines) :=
    List.right_unique_forall₂' (fun i s s' h h' => hunique i s s' h h') href' href
  have hfits : (∀ i ∈ (rows.image identity).sort (· ≤ ·), ∃ n, IsTotal (rowsWith rows i) n ∧ n ≤ 2 ^ 63 - 1) ↔
      ∀ s ∈ sightings latest (rowsOf (cleanLine loads digest catalog) log.lines), s.seenCount ≤ 2 ^ 63 - 1 := by
    refine forall₂_forall_iff (fun i s h => ⟨?_, fun hle => ⟨_, h.seen, hle⟩⟩) href
    rintro ⟨n, hn, hle⟩
    rw [h.seen.unique hn]
    exact hle
  simp only [Finset.mem_sort] at hfits
  rw [exportLogs_eq latest hlog hvalid, exportLogs_eq latest' hlog' hvalid', heq, hfits]
  refine ⟨rfl, ?_, ?_⟩
  · intro written hwritten
    split at hwritten
    · obtain rfl := Except.ok.inj hwritten
      exact href
    · cases hwritten
  · split
    · rename_i hall
      exact iff_of_true ⟨_, rfl⟩ hall
    · rename_i hover
      refine iff_of_false ?_ hover
      rintro ⟨written, hwritten⟩
      cases hwritten

/-! ## Two updates of one episode -/

/-- The first of the greatest rows in the order of the table. -/
def greatestOf : List Episode → Option Episode
  | [] => none
  | e :: rest =>
    match greatestOf rest with
    | none => some e
    | some e' => if e'.last ≤ e.last then some e else some e'

theorem greatestOf_greatest (l : List Episode) (e : Episode) (h : greatestOf l = some e) :
    e ∈ l ∧ ∀ e' ∈ l, e'.last ≤ e.last := by
  induction l generalizing e with
  | nil => cases h
  | cons a rest ih =>
    unfold greatestOf at h
    cases hrest : greatestOf rest with
    | none =>
      rw [hrest] at h
      obtain rfl := Option.some.inj h
      cases rest with
      | nil => exact ⟨List.mem_cons_self, fun e' he' => by rw [List.mem_singleton.mp he']⟩
      | cons b rest =>
        unfold greatestOf at hrest
        split at hrest
        · cases hrest
        · split at hrest <;> cases hrest
    | some e' =>
      obtain ⟨hmem, hle⟩ := ih e' hrest
      simp only [hrest] at h
      split at h
      · rename_i hae
        obtain rfl := Option.some.inj h
        refine ⟨List.mem_cons_self, List.forall_mem_cons.mpr ⟨Int.le_refl _, ?_⟩⟩
        exact fun b hb => Int.le_trans (hle b hb) hae
      · rename_i hae
        obtain rfl := Option.some.inj h
        exact ⟨List.mem_cons_of_mem _ hmem, List.forall_mem_cons.mpr ⟨by omega, hle⟩⟩

def greatestFirst : LatestFirst where
  pick := greatestOf
  greatest := greatestOf_greatest
  total l h := by
    cases l with
    | nil => rfl
    | cons e rest =>
      unfold greatestOf at h
      split at h
      · cases h
      · split at h <;> cases h

/-- The text before, between and after the two numbers. -/
def updateParts : Bytes × Bytes × Bytes :=
  (ascii "\x7b\"schema_version\":1,\"category\":\"GOOGLE_TAG\",\"rule_ids\":[\"ble.google.find_hub\"]," ++
      ascii "\"session_id\":\"0123456789abcdef0123456789abcdef\",\"identifier\":\"ABCDEFGHIJKLMNOPQRST\"," ++
      ascii "\"first_seen_ms\":1000,\"uptime_ms\":",
    ascii ",\"score\":85,\"rssi_min\":-70,\"rssi_max\":-60,\"seen_count\":",
    ascii ",\"channel\":0,\"radio\":\"ble\",\"firmware_version\":\"1.0.0\"," ++
      ascii "\"signature_pack\":\"v1-0123456789ab\",\"region\":\"US\",\"privacy_mode\":\"private\"," ++
      ascii "\"observed_at\":null,\"time_quality\":\"uptime_only\"\x7d")

def updateText (last seen : Bytes) : Bytes :=
  updateParts.1 ++ last ++ updateParts.2.1 ++ seen ++ updateParts.2.2

def updateValue (last seen : Int) : PyValue :=
  .dict [(codes "schema_version", .int 1), (codes "category", .str (codes "GOOGLE_TAG")),
    (codes "rule_ids", .list [.str (codes "ble.google.find_hub")]),
    (codes "session_id", .str (codes "0123456789abcdef0123456789abcdef")),
    (codes "identifier", .str (codes "ABCDEFGHIJKLMNOPQRST")), (codes "first_seen_ms", .int 1000),
    (codes "uptime_ms", .int last), (codes "score", .int 85), (codes "rssi_min", .int (-70)),
    (codes "rssi_max", .int (-60)), (codes "seen_count", .int seen), (codes "channel", .int 0),
    (codes "radio", .str (codes "ble")), (codes "firmware_version", .str (codes "1.0.0")),
    (codes "signature_pack", .str (codes "v1-0123456789ab")), (codes "region", .str (codes "US")),
    (codes "privacy_mode", .str (codes "private")), (codes "observed_at", .none),
    (codes "time_quality", .str (codes "uptime_only"))]

def updateLine (last seen : String) : Bytes := updateText (ascii last) (ascii seen) ++ [10]

/-- `json.loads` on these lines. -/
def updateLoads (line : Bytes) : Except String PyValue :=
  if line = updateLine "1000" "1" then .ok (updateValue 1000 1)
  else if line = updateLine "2000" "2" then .ok (updateValue 2000 2)
  else .error "Expecting value"

/-- HMAC-SHA256 under a salt of zeros, on the texts of these lines. -/
def updateDigest (message : Bytes) : Digest :=
  if message = ascii "session:0123456789abcdef0123456789abcdef" then
    #v[60, 135, 159, 219, 146, 145, 204, 39, 57, 100, 218, 104, 56, 191, 77, 148,
      235, 57, 69, 18, 56, 48, 245, 245, 94, 120, 228, 151, 234, 111, 222, 248]
  else
    #v[186, 129, 9, 46, 145, 255, 2, 7, 22, 160, 164, 167, 113, 29, 88, 97,
      229, 233, 40, 49, 158, 79, 34, 43, 99, 204, 0, 90, 158, 85, 38, 233]

def updateCatalog : List SignatureEntry :=
  [{ id := "ble.google.find_hub", category := "GOOGLE_TAG", experimental := false, evidenceKind := "protocol"
     value := "find_hub" }]

def updateClean : Cleaner := cleanLine updateLoads updateDigest updateCatalog

theorem exists_of_last {x : Except String SanitizedRow} {n : Int}
    (h : x.toOption.map SanitizedRow.lastSeenMs = some n) : ∃ row, x = .ok row ∧ row.lastSeenMs = n := by
  cases x with
  | error e => cases h
  | ok row => exact ⟨row, rfl, Option.some.inj h⟩

theorem updateClean_early : ∃ row, updateClean (updateLine "1000" "1") = .ok row ∧ row.lastSeenMs = 1000 := by
  have hloads : updateLoads (updateLine "1000" "1") = .ok (updateValue 1000 1) := if_pos rfl
  unfold updateClean cleanLine
  rw [hloads]
  exact exists_of_last (by decide +kernel)

theorem updateClean_late : ∃ row, updateClean (updateLine "2000" "2") = .ok row ∧ row.lastSeenMs = 2000 := by
  have hother : updateLine "2000" "2" ≠ updateLine "1000" "1" := by decide +kernel
  have hloads : updateLoads (updateLine "2000" "2") = .ok (updateValue 2000 2) := (if_neg hother).trans (if_pos rfl)
  unfold updateClean cleanLine
  rw [hloads]
  exact exists_of_last (by decide +kernel)

theorem updateParts_clean : 10 ∉ updateParts.1 ∧ 10 ∉ updateParts.2.1 ∧ 10 ∉ updateParts.2.2 ∧
    updateParts.1.length + updateParts.2.1.length + updateParts.2.2.length ≤ 1000 := by decide +kernel

theorem updateLine_valid {last seen : String} (hlast : 10 ∉ ascii last ∧ (ascii last).length ≤ 20)
    (hseen : 10 ∉ ascii seen ∧ (ascii seen).length ≤ 20) {row : SanitizedRow}
    (hrow : updateClean (updateLine last seen) = .ok row) : ValidLine updateClean (updateLine last seen) where
  ended := by
    refine ⟨_, rfl, ?_⟩
    simp only [updateText, List.mem_append, not_or]
    exact ⟨⟨⟨⟨updateParts_clean.1, hlast.1⟩, updateParts_clean.2.1⟩, hseen.1⟩, updateParts_clean.2.2.1⟩
  fits := by
    have hparts := updateParts_clean.2.2.2
    have hlen := hlast.2
    have hlen' := hseen.2
    simp only [updateLine, updateText, List.length_append, List.length_singleton, maxLine]
    omega
  valid := ⟨row, hrow⟩

def orderedLog : Log := [("A.JSONL", [updateLine "1000" "1", updateLine "2000" "2"])]

def splitLog : Log :=
  [("B.JSONL", [updateLine "2000" "2"]), ("C.JSONL", [updateLine "1000" "1", updateLine "2000" "2"])]

/-- One file in order, and two files with the later update first and repeated. -/
theorem aggregate_order_free_updates :
    exportLogs (cleanLine updateLoads updateDigest updateCatalog) greatestFirst (Log.files splitLog) =
      exportLogs (cleanLine updateLoads updateDigest updateCatalog) greatestFirst (Log.files orderedLog) := by
  have hmem : ∀ a b line : Bytes, line ∈ [b, a, b] ↔ line ∈ [a, b] := by
    intro a b line
    simp only [List.mem_cons, List.not_mem_nil, or_false]
    tauto
  obtain ⟨early, hearly, hearlyLast⟩ := updateClean_early
  obtain ⟨late, hlate, hlateLast⟩ := updateClean_late
  have hone := updateLine_valid (by decide +kernel) (by decide +kernel) hearly
  have htwo := updateLine_valid (by decide +kernel) (by decide +kernel) hlate
  have hlines : orderedLog.lines = [updateLine "1000" "1", updateLine "2000" "2"] := rfl
  have hlines' : splitLog.lines = [updateLine "2000" "2", updateLine "1000" "1", updateLine "2000" "2"] := rfl
  have hvalid : ∀ line ∈ orderedLog.lines, ValidLine updateClean line := by
    rw [hlines]
    exact List.forall_mem_cons.mpr ⟨hone, List.forall_mem_singleton.mpr htwo⟩
  have hsame : ∀ line, line ∈ splitLog.lines ↔ line ∈ orderedLog.lines := by
    rw [hlines, hlines']
    exact hmem _ _
  have hrows : rowsOf updateClean orderedLog.lines = [early, late] := by
    rw [hlines, rowsOf, List.filterMap_cons_some (by rw [hearly]; rfl), List.filterMap_cons_some (by rw [hlate]; rfl)]
    rfl
  have huntied : Untied (rowsOf updateClean orderedLog.lines).toFinset := by
    rw [hrows]
    intro r hr r' hr' _ hlast
    simp only [List.toFinset_cons, List.toFinset_nil, Finset.mem_insert, Finset.notMem_empty, or_false] at hr hr'
    rcases hr with rfl | rfl <;> rcases hr' with rfl | rfl
    · rfl
    · omega
    · omega
    · rfl
  exact (aggregate_order_free updateLoads updateDigest updateCatalog greatestFirst greatestFirst
    (List.cons_ne_nil _ _) (List.cons_ne_nil _ _) hvalid hsame huntied).1

end Hound.Host
