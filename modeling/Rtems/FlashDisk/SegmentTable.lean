import Mathlib.Data.Set.Disjoint
import Rtems.FlashDisk.NandDriver

/-!
# The table of segment controls

`rtems_fdisk_initialize` numbers the segment controls within each descriptor and stores them in one
table for the device.  `rtems_fdisk_seg_descriptor` takes the number for a place in that table, and
the driver takes it for a segment of the device.
-/

namespace Rtems.FlashDisk

/-- The fields of `rtems_fdisk_segment_ctl` that say where a segment is. -/
structure SegmentPlace where
  descriptor : SegmentDesc
  device : ℕ
  segment : ℕ
deriving DecidableEq, Repr

/-- The segment controls `rtems_fdisk_initialize` sets up for a device. -/
def segmentControls (device : ℕ) (segments : List SegmentDesc) : List SegmentPlace :=
  segments.flatMap fun sd => (List.range sd.count).map fun segSegment => ⟨sd, device, segSegment⟩

/-- `fd->devices[device].segments` for all devices. -/
def deviceControls (devices : List (List SegmentDesc)) : List (List SegmentPlace) :=
  devices.mapIdx segmentControls

/-- The control at a place of the table of a device. -/
def controlAt (fd : List (List SegmentPlace)) (device i : ℕ) : Option SegmentPlace := do
  let segments ← fd[device]?
  segments[i]?

/-- `rtems_fdisk_seg_descriptor`. -/
def segDescriptor (fd : List (List SegmentPlace)) (device segment : ℕ) : Option SegmentDesc :=
  (controlAt fd device segment).map SegmentPlace.descriptor

/-- What a driver call is given to find a segment. -/
structure Target where
  sd : SegmentDesc
  device : ℕ
  segment : ℕ
deriving DecidableEq, Repr

/-- The driver calls for a segment control. -/
def driverTarget (fd : List (List SegmentPlace)) (sc : SegmentPlace) : Option Target := do
  let sd ← segDescriptor fd sc.device sc.segment
  some ⟨sd, sc.device, sc.segment⟩

/-- The segment is one of those the descriptor describes. -/
def Target.InRange (t : Target) : Prop :=
  t.sd.segment ≤ t.segment ∧ t.segment < t.sd.segment + t.sd.count

/-- The devices and addresses that a driver call reaches with offsets below `size`. -/
def Target.reach (t : Target) (size : ℕ) : Set (ℕ × ℕ) :=
  {x | ∃ offset < size, x = (t.device, getLinearOffset t.sd t.segment offset)}

/-- The addresses a descriptor describes. -/
def SegmentDesc.area (sd : SegmentDesc) : Set ℕ :=
  {x | sd.offset ≤ x ∧ x < sd.offset + sd.count * sd.size}

/-- The descriptors of a device describe disjoint areas of it. -/
structure Describes (segments : List SegmentDesc) : Prop where
  count_lt : ∀ sd ∈ segments, sd.count < 2 ^ 16
  size_pos : ∀ sd ∈ segments, 0 < sd.size
  fits : ∀ sd ∈ segments, sd.offset + sd.count * sd.size ≤ 2 ^ 32
  disjoint : segments.Pairwise fun sd sd' => Disjoint sd.area sd'.area

/-- Driver calls for segment controls name a segment of the descriptor they pass, and those for two
controls reach disjoint areas. -/
structure SegmentsDistinct (devices : List (List SegmentDesc)) : Prop where
  inRange : ∀ d i sc, controlAt (deviceControls devices) d i = some sc →
    ∃ t, driverTarget (deviceControls devices) sc = some t ∧ t.InRange
  disjoint : ∀ d i sc d' i' sc', controlAt (deviceControls devices) d i = some sc →
    controlAt (deviceControls devices) d' i' = some sc' → (d, i) ≠ (d', i') →
    ∀ t t', driverTarget (deviceControls devices) sc = some t →
      driverTarget (deviceControls devices) sc' = some t' →
      Disjoint (t.reach sc.descriptor.size) (t'.reach sc'.descriptor.size)

/-! ## The table -/

/-- The descriptors that describe a segment. -/
def occupied (segments : List SegmentDesc) : List SegmentDesc :=
  segments.filter fun sd => decide (0 < sd.count)

section

variable {devices : List (List SegmentDesc)} {segments : List SegmentDesc} {d i : ℕ}
  {sd : SegmentDesc}

theorem mem_occupied : sd ∈ occupied segments ↔ sd ∈ segments ∧ 0 < sd.count := by
  unfold occupied
  rw [List.mem_filter, decide_eq_true_iff]

/-- Descriptors without segments have no controls. -/
theorem segmentControls_occupied (d : ℕ) (segments : List SegmentDesc) :
    segmentControls d (occupied segments) = segmentControls d segments := by
  unfold segmentControls occupied
  induction segments with
  | nil => rfl
  | cons sd segments ih =>
    rw [List.filter_cons]
    split
    next => rw [List.flatMap_cons, List.flatMap_cons, ih]
    next hcount =>
      rw [decide_eq_true_iff, Nat.not_lt, Nat.le_zero] at hcount
      rw [List.flatMap_cons, hcount, List.range_zero, List.map_nil, List.nil_append, ih]

theorem controlAt_deviceControls (hd : devices[d]? = some segments) :
    controlAt (deviceControls devices) d i = (segmentControls d (occupied segments))[i]? := by
  unfold controlAt deviceControls
  rw [List.getElem?_mapIdx, hd, segmentControls_occupied]
  rfl

theorem exists_device {sc : SegmentPlace}
    (h : controlAt (deviceControls devices) d i = some sc) : ∃ segments, devices[d]? = some segments := by
  unfold controlAt deviceControls at h
  rw [List.getElem?_mapIdx] at h
  cases hd : devices[d]? with
  | none =>
    rw [hd] at h
    cases h
  | some segments => exact ⟨segments, rfl⟩

/-- The control of the first segment of the first descriptor. -/
theorem controls_head (rest : List SegmentDesc) (hcount : 0 < sd.count) :
    (segmentControls d (sd :: rest))[0]? = some ⟨sd, d, 0⟩ := by
  unfold segmentControls
  rw [List.flatMap_cons, List.getElem?_append_left (by simpa using hcount), List.getElem?_map,
    List.getElem?_range hcount]
  rfl

/-- The control of the first segment of the second descriptor. -/
theorem controls_second {sd' : SegmentDesc} (rest : List SegmentDesc) (hcount : 0 < sd'.count) :
    (segmentControls d (sd :: sd' :: rest))[sd.count]? = some ⟨sd', d, 0⟩ := by
  have hlen : ((List.range sd.count).map fun segSegment =>
      (⟨sd, d, segSegment⟩ : SegmentPlace)).length = sd.count := by
    rw [List.length_map, List.length_range]
  have hhead := controls_head (d := d) rest hcount
  unfold segmentControls at hhead ⊢
  rw [List.flatMap_cons, List.getElem?_append_right (Nat.le_of_eq hlen), hlen, Nat.sub_self]
  exact hhead

/-- The controls of a single descriptor. -/
theorem controls_single (hi : i < sd.count) :
    (segmentControls d [sd])[i]? = some ⟨sd, d, i⟩ := by
  unfold segmentControls
  rw [List.flatMap_cons, List.flatMap_nil, List.append_nil, List.getElem?_map, List.getElem?_range hi]
  rfl

theorem controls_single_lt {sc : SegmentPlace} (h : (segmentControls d [sd])[i]? = some sc) :
    i < sd.count := by
  obtain ⟨hi, -⟩ := List.getElem?_eq_some_iff.mp h
  simpa [segmentControls] using hi

end

/-! ## Distinct segments -/

/-- A segment of a descriptor that describes segments from zero on. -/
theorem getLinearOffset_of_base {sd : SegmentDesc} {i offset : ℕ} (hbase : sd.segment = 0)
    (hcount : sd.count < 2 ^ 16) (hfits : sd.offset + sd.count * sd.size ≤ 2 ^ 32)
    (hi : i < sd.count) (ho : offset < sd.size) :
    getLinearOffset sd i offset = offset + (sd.offset + i * sd.size) := by
  have hnext : (i + 1) * sd.size ≤ sd.count * sd.size := Nat.mul_le_mul_right _ hi
  rw [Nat.add_mul, Nat.one_mul] at hnext
  have hsegment : (i + 2 ^ 32 - 0) % 2 ^ 32 = i := by omega
  unfold getLinearOffset
  rw [hbase, hsegment, Nat.mod_eq_of_lt (by omega)]

/-- **Distinct segments are distinct flash** if each device has a single descriptor of segments, with
zero for its base. -/
theorem segments_distinct (devices : List (List SegmentDesc))
    (h : ∀ segments ∈ devices, Describes segments) :
    SegmentsDistinct devices ↔ ∀ segments ∈ devices,
      (occupied segments).length ≤ 1 ∧ ∀ sd ∈ occupied segments, sd.segment = 0 := by
  constructor
  · intro hdistinct segments hmem
    obtain ⟨d, hd⟩ := List.mem_iff_getElem?.mp hmem
    have hat := fun i => controlAt_deviceControls (i := i) hd
    cases hlist : occupied segments with
    | nil => exact ⟨Nat.zero_le 1, fun sd hsd => absurd hsd List.not_mem_nil⟩
    | cons sd rest =>
      have hsd := mem_occupied.mp (hlist ▸ List.mem_cons_self : sd ∈ occupied segments)
      have hfirst : controlAt (deviceControls devices) d 0 = some ⟨sd, d, 0⟩ := by
        rw [hat, hlist]
        exact controls_head rest hsd.2
      have htarget : ∀ sd', driverTarget (deviceControls devices) ⟨sd', d, 0⟩ =
          some ⟨sd, d, 0⟩ := by
        intro sd'
        unfold driverTarget segDescriptor
        simp only [hfirst]
        rfl
      obtain ⟨t, ht, hrange⟩ := hdistinct.inRange d 0 _ hfirst
      obtain rfl := Option.some.inj ((htarget sd).symm.trans ht)
      have hbase : sd.segment = 0 := Nat.le_zero.mp hrange.1
      cases rest with
      | nil =>
        refine ⟨Nat.le_refl 1, fun sd' hsd' => ?_⟩
        rw [List.mem_singleton.mp hsd']
        exact hbase
      | cons sd' rest =>
        have hsd' := mem_occupied.mp
          (hlist ▸ List.mem_cons_of_mem _ List.mem_cons_self : sd' ∈ occupied segments)
        have hsecond : controlAt (deviceControls devices) d sd.count = some ⟨sd', d, 0⟩ := by
          rw [hat, hlist]
          exact controls_second rest hsd'.2
        have hne : (d, 0) ≠ (d, sd.count) := by
          intro heq
          exact Nat.ne_of_lt hsd.2 (congrArg Prod.snd heq)
        -- Both controls pass the first descriptor and the segment zero.
        have hdisjoint := hdistinct.disjoint _ _ _ _ _ _ hfirst hsecond hne _ _
          (htarget sd) (htarget sd')
        exact absurd (Set.disjoint_left.mp hdisjoint
          ⟨0, (h segments hmem).size_pos sd hsd.1, rfl⟩
          ⟨0, (h segments hmem).size_pos sd' hsd'.1, rfl⟩) not_false
  · intro hsingle
    -- Every control is that of its own segment, and its calls pass what it stands for.
    have hcontrol : ∀ d i sc, controlAt (deviceControls devices) d i = some sc →
        ∃ sd segments, devices[d]? = some segments ∧ occupied segments = [sd] ∧ i < sd.count ∧
          sc = ⟨sd, d, i⟩ ∧ driverTarget (deviceControls devices) sc = some ⟨sd, d, i⟩ := by
      intro d i sc hsc
      obtain ⟨segments, hd⟩ := exists_device hsc
      have hat := fun i => controlAt_deviceControls (i := i) hd
      rw [hat] at hsc
      obtain ⟨hlen, -⟩ := hsingle segments (List.mem_of_getElem? hd)
      cases hlist : occupied segments with
      | nil =>
        rw [hlist] at hsc
        cases hsc
      | cons sd rest =>
        rw [hlist, List.length_cons] at hlen
        obtain rfl := List.length_eq_zero_iff.mp (Nat.le_zero.mp (Nat.le_of_succ_le_succ hlen))
        rw [hlist] at hsc
        have hi := controls_single_lt hsc
        rw [controls_single hi] at hsc
        refine ⟨sd, segments, hd, hlist, hi, (Option.some.inj hsc).symm, ?_⟩
        rw [← Option.some.inj hsc]
        unfold driverTarget segDescriptor
        rw [hat, hlist, controls_single hi]
        rfl
    constructor
    · intro d i sc hsc
      obtain ⟨sd, segments, hd, hlist, hi, -, htarget⟩ := hcontrol d i sc hsc
      have hmem := List.mem_of_getElem? hd
      have hbase := (hsingle segments hmem).2 sd (hlist ▸ List.mem_singleton_self sd)
      refine ⟨_, htarget, ?_, ?_⟩
      · exact hbase ▸ Nat.zero_le i
      · change i < sd.segment + sd.count
        omega
    · intro d i sc d' i' sc' hsc hsc' hne t t' ht ht'
      obtain ⟨sd, segments, hd, hlist, hi, rfl, htarget⟩ := hcontrol d i sc hsc
      obtain ⟨sd', segments', hd', hlist', hi', rfl, htarget'⟩ := hcontrol d' i' sc' hsc'
      obtain rfl := Option.some.inj (htarget.symm.trans ht)
      obtain rfl := Option.some.inj (htarget'.symm.trans ht')
      rw [Set.disjoint_left]
      rintro x ⟨o, ho, rfl⟩ ⟨o', ho', heq⟩
      obtain ⟨rfl, haddr⟩ := Prod.mk.inj heq
      obtain rfl := Option.some.inj (hd.symm.trans hd')
      obtain rfl := (List.cons.inj (hlist.symm.trans hlist')).1
      have hmem := List.mem_of_getElem? hd
      have hsd := mem_occupied.mp (hlist ▸ List.mem_singleton_self sd : sd ∈ occupied segments)
      have hbase := (hsingle segments hmem).2 sd (hlist ▸ List.mem_singleton_self sd)
      have hcount := (h segments hmem).count_lt sd hsd.1
      have hfits := (h segments hmem).fits sd hsd.1
      change getLinearOffset sd i o = getLinearOffset sd i' o' at haddr
      rw [getLinearOffset_of_base hbase hcount hfits hi ho,
        getLinearOffset_of_base hbase hcount hfits hi' ho'] at haddr
      refine hne (congrArg (Prod.mk d) ?_)
      change o < sd.size at ho
      change o' < sd.size at ho'
      rcases Nat.lt_trichotomy i i' with hlt | heq | hgt
      · have hle := Nat.mul_le_mul_right sd.size hlt
        rw [Nat.succ_mul] at hle
        omega
      · exact heq
      · have hle := Nat.mul_le_mul_right sd.size hgt
        rw [Nat.succ_mul] at hle
        omega

/-- A device with two segments of one size behind each other. -/
def uniformDevice : List SegmentDesc := [⟨2, 0, 0, 512⟩]

/-- A device with segments of two sizes. -/
def mixedDevice : List SegmentDesc := [⟨1, 0, 0, 512⟩, ⟨1, 1, 512, 1024⟩]

theorem segments_distinct_uniform : SegmentsDistinct [uniformDevice] :=
  (segments_distinct [uniformDevice] fun segments hmem => by
    rw [List.mem_singleton.mp hmem]
    exact ⟨by decide, by decide, by decide, List.pairwise_singleton _ _⟩).mpr (by decide)

/-- The calls for the segment of the second size go to the segment of the first. -/
theorem segments_distinct_mixed : ¬ ∀ devices : List (List SegmentDesc),
    (∀ segments ∈ devices, Describes segments) → SegmentsDistinct devices := by
  intro hall
  have hdescribes : Describes mixedDevice := by
    refine ⟨by decide, by decide, by decide, ?_⟩
    refine List.pairwise_pair.mpr (Set.disjoint_left.mpr ?_)
    rintro x ⟨-, hlt⟩ ⟨hle, -⟩
    exact Nat.not_lt_of_le hle hlt
  have hdistinct := hall [mixedDevice] fun segments hmem => List.mem_singleton.mp hmem ▸ hdescribes
  have hdisjoint := hdistinct.disjoint 0 0 ⟨⟨1, 0, 0, 512⟩, 0, 0⟩ 0 1 ⟨⟨1, 1, 512, 1024⟩, 0, 0⟩
    (by decide) (by decide) (by decide) ⟨⟨1, 0, 0, 512⟩, 0, 0⟩ ⟨⟨1, 0, 0, 512⟩, 0, 0⟩
    (by decide) (by decide)
  exact Set.disjoint_left.mp hdisjoint ⟨0, by decide, rfl⟩ ⟨0, by decide, rfl⟩

end Rtems.FlashDisk
