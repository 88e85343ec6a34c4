import Cytrus.VideoCore.SurfaceGeometry

/-!
# What can be copied from a surface

A surface knows which of its bytes are not valid. The rest of what it shares
with other parameters falls into fragments, and each fragment is cut down to
a rectangle of tiles.

## Implementation notes

The pixel format `Invalid`, that of a surface of type `Fill`, is left out: it
is not read here. A division by zero and a failed assertion give no result.

## Main results

* `getCopyableInterval_rect`: the interval is valid and a rectangle, and there
  is one where a whole tile is valid
-/

namespace Cytrus.VideoCore.Geometry

open Support

/-- `SurfaceBase`, without the members that only the host uses. -/
structure SurfaceBase extends SurfaceParams where
  invalidRegions : IntervalSet := .empty
  fillSize : UInt32 := 0
  fillData : Fin 4 → UInt8 := fun _ => 0

namespace SurfaceInterval

def length (i : SurfaceInterval) : UInt32 := if i.isEmpty then 0 else i.upper - i.lower

/-- An interval as one of naturals. -/
def toBlock (i : SurfaceInterval) : Block := ⟨i.lower.toNat, i.upper.toNat⟩

/-- `operator&`. -/
def inter (i j : SurfaceInterval) : SurfaceInterval := ⟨max i.lower j.lower, min i.upper j.upper⟩

end SurfaceInterval

/-- An interval rounded inwards, as an offset from its start. -/
def shrunkInterval (start size : UInt32) (interval : SurfaceInterval) : SurfaceInterval :=
  ⟨start + alignUp (interval.lower - start) size, start + alignDown (interval.upper - start) size⟩

/-- The rectangle within an interval of tiles. -/
def rectInterval (start strideBytes : UInt32) (aligned : SurfaceInterval) : SurfaceInterval :=
  let rect := shrunkInterval start strideBytes aligned
  if rect.upper < rect.lower then aligned
  else if rect.length = 0 then
    let row1 : SurfaceInterval := ⟨aligned.lower, rect.lower⟩
    let row2 : SurfaceInterval := ⟨rect.lower, aligned.upper⟩
    if row2.length < row1.length then row1 else row2
  else rect

/-- `stride_bytes` of `GetCopyableInterval`. -/
def SurfaceParams.strideBytes (params : SurfaceParams) : UInt32 :=
  params.bytesInPixels params.stride * params.tiledSize

/-- The loop over the valid regions. -/
def copyableStep (params : SurfaceParams) (result : SurfaceInterval) (valid : Block) :
    Option SurfaceInterval :=
  let validInterval : SurfaceInterval := ⟨UInt32.ofNat valid.lower, UInt32.ofNat valid.upper⟩
  let tileAlign := params.tiledAlignment
  if tileAlign = 0 then none
  else
    let aligned := shrunkInterval params.addr tileAlign validInterval
    if validInterval.length < tileAlign ∨ aligned.length = 0 then some result
    else if params.strideBytes = 0 then none
    else
      let rect := rectInterval params.addr params.strideBytes aligned
      some (if result.length < rect.length then rect else result)

namespace SurfaceBase

/-- `valid_regions` of `GetCopyableInterval`. -/
def validRegions (s : SurfaceBase) (params : SurfaceParams) : IntervalSet :=
  (IntervalSet.empty.add (params.getInterval.inter s.getInterval).toBlock).subSet s.invalidRegions

def getCopyableInterval (s : SurfaceBase) (params : SurfaceParams) : Option SurfaceInterval :=
  (s.validRegions params).blocks.foldlM (copyableStep params) ⟨0, 0⟩

end SurfaceBase

/-! ### Offsets -/

section Offsets

variable {start size : UInt32} {i : SurfaceInterval} {o : Block} {n : Nat}

/-- An interval by the offsets of its ends. -/
structure Offset (start : UInt32) (i : SurfaceInterval) (o : Block) : Prop where
  lower : i.lower.toNat = start.toNat + o.lower
  upper : i.upper.toNat = start.toNat + o.upper

theorem SurfaceInterval.toNat_length (i : SurfaceInterval) :
    i.length.toNat = i.upper.toNat - i.lower.toNat := by
  have hempty : i.isEmpty = true ↔ i.upper.toNat ≤ i.lower.toNat := by
    rw [SurfaceInterval.isEmpty, decide_eq_true_iff, UInt32.le_iff_toNat_le]
  unfold SurfaceInterval.length
  split
  · next h => rw [Nat.sub_eq_zero_of_le (hempty.mp h), UInt32.toNat_zero]
  · next h =>
    rw [UInt32.toNat_sub_of_le]
    rw [UInt32.le_iff_toNat_le]
    have := hempty.not.mp h
    omega

theorem Offset.toNat_length (h : Offset start i o) : i.length.toNat = o.upper - o.lower := by
  rw [SurfaceInterval.toNat_length, h.lower, h.upper]
  omega

theorem Offset.shrunk (h : Offset start i o) (hsize : size.toNat = n)
    (hroom : start.toNat + Grid.ceil n o.lower < 2 ^ 32) :
    Offset start (shrunkInterval start size i) (Grid.cells n o) := by
  have hlower := toNat_sub_of_add h.lower rfl
  have hupper := toNat_sub_of_add h.upper rfl
  have hfloor := Grid.floor_le n o.upper
  have hlt := h.upper ▸ i.upper.toNat_lt
  have hup : (alignUp (i.lower - start) size).toNat = Grid.ceil n o.lower := by
    rw [toNat_alignUp (by rw [hsize, hlower]; omega), hsize, hlower]
  have hdown : (alignDown (i.upper - start) size).toNat = Grid.floor n o.upper := by
    rw [toNat_alignDown, hsize, hupper]
  have hroom' : start.toNat + Grid.floor n o.upper < 2 ^ 32 := by omega
  exact ⟨toNat_add_of_lt rfl hup hroom, toNat_add_of_lt rfl hdown hroom'⟩

theorem Offset.rect (h : Offset start i o) (hsize : size.toNat = n)
    (hroom : start.toNat + Grid.ceil n o.lower < 2 ^ 32) :
    Offset start (rectInterval start size i) (Grid.rows n o) := by
  have hrect := h.shrunk hsize hroom
  have hinverted : (shrunkInterval start size i).upper < (shrunkInterval start size i).lower ↔
      Grid.floor n o.upper < Grid.ceil n o.lower := by
    rw [UInt32.lt_iff_toNat_lt, hrect.lower, hrect.upper, Nat.add_lt_add_iff_left]
    rfl
  have hlength : (shrunkInterval start size i).length = 0 ↔
      Grid.floor n o.upper - Grid.ceil n o.lower = 0 := by
    rw [← UInt32.toNat_inj, hrect.toNat_length, UInt32.toNat_zero]
    rfl
  have hrow1 : Offset start ⟨i.lower, (shrunkInterval start size i).lower⟩
      ⟨o.lower, Grid.ceil n o.lower⟩ := ⟨h.lower, hrect.lower⟩
  have hrow2 : Offset start ⟨(shrunkInterval start size i).lower, i.upper⟩
      ⟨Grid.ceil n o.lower, o.upper⟩ := ⟨hrect.lower, h.upper⟩
  unfold rectInterval Grid.rows
  dsimp only
  by_cases hlt : Grid.floor n o.upper < Grid.ceil n o.lower
  · rw [if_pos (hinverted.mpr hlt), if_pos hlt]
    exact h
  · rw [if_neg (hinverted.not.mpr hlt), if_neg hlt]
    by_cases heq : Grid.floor n o.upper = Grid.ceil n o.lower
    · rw [if_pos (hlength.mpr (by omega)), if_pos heq]
      by_cases hlonger : o.upper - Grid.ceil n o.lower < Grid.ceil n o.lower - o.lower
      · rw [if_pos (by rw [UInt32.lt_iff_toNat_lt, hrow1.toNat_length, hrow2.toNat_length]; exact hlonger),
          if_pos hlonger]
        exact hrow1
      · rw [if_neg (by rw [UInt32.lt_iff_toNat_lt, hrow1.toNat_length, hrow2.toNat_length]; exact hlonger),
          if_neg hlonger]
        exact hrow2
    · rw [if_neg (hlength.not.mpr (by omega)), if_neg heq]
      exact hrect

end Offsets

/-! ### Fragments -/

section Fragments

variable {params r : SurfaceParams} {tile columns rows fine : Nat} {valid : Block}
  {result : SurfaceInterval}

/-- A fragment of the bytes of single-level parameters. -/
structure Fragment (params : SurfaceParams) (n : Nat) (valid : Block) : Prop where
  lower : params.addr.toNat ≤ valid.lower
  lt : valid.lower < valid.upper
  upper : valid.upper ≤ params.addr.toNat + n

/-- A fragment as offsets. -/
def offsets (params : SurfaceParams) (valid : Block) : Block :=
  ⟨valid.lower - params.addr.toNat, valid.upper - params.addr.toNat⟩

theorem SurfaceParams.Level.toNat_rowBytes (h : params.Level 0 tile columns rows fine)
    (hno : params.NoOverflow) (hc : params.Completed) (hstride : params.stride = params.width) :
    params.strideBytes.toNat = columns * fine := by
  have hbytes := h.toNat_strideBytes hno hc hstride
  have hlt := h.stop_le hno
  have hrow := h.row_le
  have hzero : params.stride >>> UInt32.ofNat 0 = params.stride :=
    UInt32.toNat_inj.mp (toNat_shiftRight _ (by decide))
  rw [hzero] at hbytes
  rw [strideBytes, UInt32.toNat_mul, h.toNat_tiledSize, hbytes]
  exact Nat.mod_eq_of_lt (by omega)

theorem copyableStep_eq (h : params.Level 0 tile columns rows fine) (hno : params.NoOverflow)
    (hc : params.Completed) (hstride : params.stride = params.width)
    (hvalid : Fragment params (columns * rows * fine) valid) (result : SurfaceInterval) :
    ((Grid.cells fine (offsets params valid)).upper ≤ (Grid.cells fine (offsets params valid)).lower ∧
      copyableStep params result valid = some result) ∨
    ((Grid.cells fine (offsets params valid)).lower < (Grid.cells fine (offsets params valid)).upper ∧
      ∃ rect, Offset params.addr rect
        (Grid.roundIn fine (columns * fine) (offsets params valid)) ∧
        copyableStep params result valid =
          some (if result.length < rect.length then rect else result)) := by
  have hfine := h.toNat_tiledAlignment hno
  have hrowBytes := h.toNat_rowBytes hno hc hstride
  have hfinePos := h.fine_pos
  have hrowPos : 0 < columns * fine := Nat.mul_pos h.columns_pos hfinePos
  have hstop : params.addr.toNat + columns * rows * fine < 2 ^ 32 := h.stop_le hno
  have hrows : columns * fine ∣ columns * rows * fine := ⟨rows, by ring⟩
  have hdvd : fine ∣ columns * fine := Nat.dvd_mul_left ..
  obtain ⟨hlower, hlt, hupper⟩ := hvalid
  have hne {x : UInt32} {n : Nat} (hx : x.toNat = n) (hn : 0 < n) : x ≠ 0 := by
    rintro rfl
    exact hn.ne hx
  have hoffset : Offset params.addr ⟨UInt32.ofNat valid.lower, UInt32.ofNat valid.upper⟩
      (offsets params valid) := by
    constructor
    · rw [UInt32.toNat_ofNat_of_lt' (by change _ < 2 ^ 32; omega)]
      exact (Nat.add_sub_cancel' hlower).symm
    · rw [UInt32.toNat_ofNat_of_lt' (by change _ < 2 ^ 32; omega)]
      exact (Nat.add_sub_cancel' (hlower.trans hlt.le)).symm
  have hle : (offsets params valid).lower ≤ columns * rows * fine := by
    change valid.lower - params.addr.toNat ≤ _
    omega
  have hceil := Grid.ceil_le (hdvd.trans hrows) hle
  have hcells := hoffset.shrunk hfine (by omega)
  have hrect := hcells.rect hrowBytes (by
    have := Grid.ceil_le hrows hceil
    change params.addr.toNat + Grid.ceil (columns * fine) (Grid.ceil fine _) < 2 ^ 32
    omega)
  unfold copyableStep
  dsimp only
  rw [if_neg (hne hfine hfinePos)]
  rcases Nat.lt_or_ge (Grid.cells fine (offsets params valid)).lower
    (Grid.cells fine (offsets params valid)).upper with hcell | hnone
  · refine .inr ⟨hcell, _, hrect, ?_⟩
    -- A cell of the fragment is as long as `tile_align` at least.
    have hlong : fine ≤ (offsets params valid).upper - (offsets params valid).lower := by
      have hadd := Grid.add_le_of_dvd (Grid.dvd_ceil fine _) (Grid.dvd_floor fine _) hcell
      have hup := Grid.floor_le fine (offsets params valid).upper
      have hlow : (offsets params valid).lower ≤ Grid.ceil fine _ := Grid.le_ceil hfinePos
      omega
    rw [if_neg, if_neg (hne hrowBytes hrowPos)]
    rw [UInt32.lt_iff_toNat_lt, ← UInt32.toNat_inj, hoffset.toNat_length, hcells.toNat_length, hfine,
      UInt32.toNat_zero]
    omega
  · refine .inl ⟨hnone, if_pos (.inr ?_)⟩
    rw [← UInt32.toNat_inj, hcells.toNat_length]
    exact Nat.sub_eq_zero_of_le hnone

theorem foldlM_copyableStep (h : params.Level 0 tile columns rows fine) (hno : params.NoOverflow)
    (hc : params.Completed) (hstride : params.stride = params.width) (l : List Block)
    (hl : ∀ valid ∈ l, Fragment params (columns * rows * fine) valid) (result : SurfaceInterval) :
    ∃ i, l.foldlM (copyableStep params) result = some i ∧
      result.length.toNat ≤ i.length.toNat ∧
      (i = result ∨ ∃ valid ∈ l,
        (Grid.cells fine (offsets params valid)).lower < (Grid.cells fine (offsets params valid)).upper ∧
          Offset params.addr i (Grid.roundIn fine (columns * fine) (offsets params valid))) ∧
      ∀ valid ∈ l, (Grid.cells fine (offsets params valid)).lower <
        (Grid.cells fine (offsets params valid)).upper → 0 < i.length.toNat := by
  induction l generalizing result with
  | nil => exact ⟨result, rfl, le_rfl, .inl rfl, fun _ hmem => absurd hmem List.not_mem_nil⟩
  | cons valid rest ih =>
      have hrest := fun other hother => hl other (List.mem_cons_of_mem _ hother)
      rcases copyableStep_eq h hno hc hstride (hl valid List.mem_cons_self) result with
        ⟨hnone, hstep⟩ | ⟨hcell, rect, hrect, hstep⟩
      · obtain ⟨i, hi, hle, hcases, hpos⟩ := ih hrest result
        refine ⟨i, ?_, hle, ?_, ?_⟩
        · rw [List.foldlM_cons, hstep]
          exact hi
        · exact hcases.imp_right fun ⟨other, hother, hin⟩ => ⟨other, List.mem_cons_of_mem _ hother, hin⟩
        · intro other hother hcell
          rcases List.mem_cons.mp hother with rfl | hother
          · exact absurd hcell (Nat.not_lt.mpr hnone)
          · exact hpos other hother hcell
      · obtain ⟨i, hi, hle, hcases, hpos⟩ :=
          ih hrest (if result.length < rect.length then rect else result)
        have hlarger : result.length.toNat ≤ i.length.toNat ∧ rect.length.toNat ≤ i.length.toNat := by
          split at hle
          · next hlt => exact ⟨(UInt32.lt_iff_toNat_lt.mp hlt).le.trans hle, hle⟩
          · next hge => exact ⟨hle, (Nat.not_lt.mp (UInt32.lt_iff_toNat_lt.not.mp hge)).trans hle⟩
        refine ⟨i, ?_, hlarger.1, ?_, ?_⟩
        · rw [List.foldlM_cons, hstep]
          exact hi
        · rcases hcases with heq | ⟨other, hother, hin⟩
          · split at heq
            · subst heq
              exact .inr ⟨valid, List.mem_cons_self, hcell, hrect⟩
            · exact .inl heq
          · exact .inr ⟨other, List.mem_cons_of_mem _ hother, hin⟩
        · intro other hother hother'
          rcases List.mem_cons.mp hother with rfl | hother
          · have hin := (Grid.roundOut_roundIn (Nat.mul_pos h.columns_pos h.fine_pos)
              (Nat.dvd_mul_left fine columns) hcell).2
            have hlength := hrect.toNat_length
            omega
          · exact hpos other hother hother'

theorem SurfaceBase.mem_validRegions {s : SurfaceBase} {x : Nat} :
    x ∈ (s.validRegions params).toFinset ↔
      (params.addr.toNat ≤ x ∧ x < params.stop.toNat) ∧ (s.addr.toNat ≤ x ∧ x < s.stop.toNat) ∧
        x ∉ s.invalidRegions.toFinset := by
  have hlower : (max params.addr s.addr).toNat = max params.addr.toNat s.addr.toNat :=
    UInt32.toNat_max ..
  have hupper : (min params.stop s.stop).toNat = min params.stop.toNat s.stop.toNat :=
    UInt32.toNat_min ..
  rw [SurfaceBase.validRegions, IntervalSet.toFinset_subSet, IntervalSet.toFinset_add,
    IntervalSet.toFinset_empty, Finset.empty_union, Finset.mem_sdiff, Block.mem_toFinset]
  change ((max params.addr s.addr).toNat ≤ x ∧ x < (min params.stop s.stop).toNat) ∧ _ ↔ _
  rw [hlower, hupper, max_le_iff, lt_min_iff]
  tauto

theorem SurfaceBase.fragment_of_mem {s : SurfaceBase} {n : Nat}
    (hstop : params.stop.toNat = params.addr.toNat + n) (hvalid : valid ∈ (s.validRegions params).blocks) :
    Fragment params n valid := by
  have hlt := ((s.validRegions params).spaced.bounds hvalid).2
  have hmem {x : Nat} (hlow : valid.lower ≤ x) (hhigh : x < valid.upper) :=
    (mem_validRegions.mp (IntervalSet.mem_toFinset.mpr ⟨valid, hvalid, hlow, hhigh⟩)).1
  have hfirst := hmem le_rfl hlt
  have hlast := @hmem (valid.upper - 1) (by omega) (by omega)
  exact ⟨hfirst.1, hlt, by omega⟩

theorem SurfaceParams.tiledAlignment_pos (hbytes : params.isTiled = false → 8 ≤ params.pixelFormat.bpp) :
    0 < params.tiledAlignment.toNat := by
  have hpos := bpp_pos params.pixelFormat
  have hle := bpp_le params.pixelFormat
  unfold tiledAlignment
  cases htiled : params.isTiled with
  | true =>
      have hmany : (64 : UInt32).toNat * params.pixelFormat.bpp = 64 * params.pixelFormat.bpp := rfl
      rw [if_pos rfl, toNat_bytesInPixels (by rw [hmany]; omega), hmany]
      omega
  | false =>
      have hone : (1 : UInt32).toNat * params.pixelFormat.bpp = params.pixelFormat.bpp := Nat.one_mul _
      have := hbytes htiled
      rw [if_neg Bool.false_ne_true, toNat_bytesInPixels (by rw [hone]; omega), hone]
      omega

/-- The parameters' own tile at an address is valid in the surface. -/
def SurfaceBase.ValidTile (s : SurfaceBase) (params : SurfaceParams) (a : Nat) : Prop :=
  params.tiledAlignment.toNat ∣ a - params.addr.toNat ∧
    ∀ x, a ≤ x → x < a + params.tiledAlignment.toNat →
      (params.addr.toNat ≤ x ∧ x < params.stop.toNat) ∧
        (s.addr.toNat ≤ x ∧ x < s.stop.toNat) ∧ x ∉ s.invalidRegions.toFinset

/-- An interval of both the surface and the parameters that is valid, and its own rectangle. -/
structure SurfaceBase.Copyable (s : SurfaceBase) (params : SurfaceParams) (i : SurfaceInterval) : Prop where
  within_params : i.Within params.getInterval
  within : i.Within s.getInterval
  valid : ∀ x ∈ s.invalidRegions.toFinset, ¬ (i.lower.toNat ≤ x ∧ x < i.upper.toNat)
  rect : ∃ p, params.fromInterval i = some p ∧ p.getInterval = i

/-- The interval that `GetCopyableInterval` finds is empty or can be copied, and it is not empty if
a whole tile is valid. -/
theorem SurfaceBase.getCopyableInterval_rect (s : SurfaceBase) (h : r.updateParams = some params)
    (hlevels : params.levels = 1) (hshaped : params.Shaped)
    (hbytes : params.isTiled = false → 8 ≤ params.pixelFormat.bpp) (hno : params.NoOverflow) :
    ∃ i, s.getCopyableInterval params = some i ∧ (i.isEmpty = true ∨ s.Copyable params i) ∧
      ∀ a, s.ValidTile params a → i.isEmpty = false := by
  have hc := SurfaceParams.completed_of_updateParams h hshaped hno
  have htile := SurfaceParams.tiledAlignment_pos hbytes
  have hone : params.levels.toNat = 1 := by rw [hlevels]; rfl
  have hstop : params.stop.toNat = params.addr.toNat + params.levelBytes 0 := by
    rw [hc.stop, hone, SurfaceParams.bytesBelow, SurfaceParams.bytesBelow, Nat.zero_add]
  have hfragment : ∀ valid ∈ (s.validRegions params).blocks,
      Fragment params (params.levelBytes 0) valid := fun _ hvalid => fragment_of_mem hstop hvalid
  rcases Nat.eq_zero_or_pos (params.levelBytes 0) with hzero | hpos
  · have hnone : (s.validRegions params).blocks = [] := by
      refine List.eq_nil_iff_forall_not_mem.mpr fun valid hvalid => ?_
      obtain ⟨hlower, hlt, hupper⟩ := hfragment valid hvalid
      omega
    refine ⟨⟨0, 0⟩, by rw [getCopyableInterval, hnone]; rfl, .inl rfl, fun a hvalid => ?_⟩
    have := (hvalid.2 a le_rfl (by omega)).1
    omega
  · obtain ⟨tile, columns, rows, fine, hl⟩ := @SurfaceParams.Shaped.exists_level params 0 hshaped (by omega)
      (Nat.pos_of_ne_zero fun hwidth => by simp [SurfaceParams.levelBytes, hwidth] at hpos)
      (Nat.pos_of_ne_zero fun hheight => by simp [SurfaceParams.levelBytes, hheight] at hpos) hbytes
    rw [hl.levelBytes_eq] at hstop hfragment
    have hrowPos : 0 < columns * fine := Nat.mul_pos hl.columns_pos hl.fine_pos
    obtain ⟨i, hi, -, hcases, hnonempty⟩ := foldlM_copyableStep hl hno hc hshaped.stride
      (s.validRegions params).blocks hfragment ⟨0, 0⟩
    refine ⟨i, hi, ?_, fun a hwholeTile => ?_⟩
    · rcases hcases with rfl | ⟨valid, hvalid, hcell, hoffset⟩
      · exact .inl rfl
      · right
        obtain ⟨hsame, hlt⟩ :=
          Grid.roundOut_roundIn hrowPos (Nat.dvd_mul_left fine columns) hcell
        have hlow := Grid.lower_le_roundIn (i := offsets params valid) hl.fine_pos hrowPos
        have hup : (Grid.roundIn fine (columns * fine) (offsets params valid)).upper ≤ _ :=
          Grid.upper_roundIn_le
        obtain ⟨hlower, -, hupper⟩ := hfragment valid hvalid
        change valid.lower - params.addr.toNat ≤ _ at hlow
        change _ ≤ valid.upper - params.addr.toNat at hup
        generalize Grid.roundIn fine (columns * fine) (offsets params valid) = out at *
        have hfirst := hoffset.lower
        have hlast := hoffset.upper
        have hshared {x : Nat} (hx : i.lower.toNat ≤ x) (hx' : x < i.upper.toNat) :=
          mem_validRegions.mp (IntervalSet.mem_toFinset.mpr ⟨valid, hvalid,
            (by omega : valid.lower ≤ x), (by omega : x < valid.upper)⟩)
        refine ⟨⟨?_, ?_⟩, ⟨?_, ?_⟩, fun x hx hin => (hshared hin.1 hin.2).2.2 hx, ?_⟩
        · rw [UInt32.le_iff_toNat_le, hfirst]
          exact Nat.le_add_right ..
        · rw [UInt32.le_iff_toNat_le]
          exact (show i.upper.toNat ≤ params.stop.toNat by omega)
        · rw [UInt32.le_iff_toNat_le]
          exact (hshared le_rfl (by omega)).2.1.1
        · have := (hshared (x := i.upper.toNat - 1) (by omega) (by omega)).2.1.2
          rw [UInt32.le_iff_toNat_le]
          exact (show i.upper.toNat ≤ s.stop.toNat by omega)
        · have hinside : params.Inside 0 out.lower out.upper i :=
            ⟨hfirst, hlast, hlt, by rw [hl.levelBytes_eq]; omega⟩
          obtain ⟨p, hp, hrect⟩ := SurfaceParams.fromInterval_rect hl hno hc hshaped.stride hinside
          have hout : Grid.roundOut fine (columns * fine) ⟨out.lower, out.upper⟩ = out := hsame
          rw [hout] at hrect
          refine ⟨p, hp, ?_⟩
          unfold SurfaceParams.getInterval
          congr 1
          · exact UInt32.toNat_inj.mp (hrect.addr.trans hfirst.symm)
          · exact UInt32.toNat_inj.mp (hrect.stop.trans hlast.symm)
    · obtain ⟨ha, hwhole⟩ := hwholeTile
      rw [hl.toNat_tiledAlignment hno] at ha hwhole htile
      have hcovered : (s.validRegions params).contains ⟨a, a + fine⟩ = true := by
        apply IntervalSet.contains_iff.mpr
        intro x hx
        obtain ⟨hlow, hhigh⟩ := Block.mem_toFinset.mp hx
        exact mem_validRegions.mpr (hwhole x hlow hhigh)
      simp only [IntervalSet.contains, Bool.or_eq_true, decide_eq_true_eq, List.any_eq_true,
        Bool.and_eq_true] at hcovered
      obtain hempty | ⟨valid, hvalid, hlow, hhigh⟩ := hcovered
      · omega
      have haddr := (hwhole a le_rfl (by omega)).1.1
      have hup : Grid.ceil fine (offsets params valid).lower ≤ a - params.addr.toNat :=
        Grid.ceil_le ha (Nat.sub_le_sub_right hlow _)
      have hdown : a - params.addr.toNat + fine ≤ Grid.floor fine (offsets params valid).upper :=
        Grid.le_floor (ha.add dvd_rfl) (by
          change _ ≤ valid.upper - params.addr.toNat
          omega)
      have hpositive := hnonempty valid hvalid
        (by
          change Grid.ceil fine _ < Grid.floor fine _
          omega)
      rw [SurfaceInterval.toNat_length] at hpositive
      apply decide_eq_false
      rw [UInt32.le_iff_toNat_le]
      omega

/-- A linear surface. -/
def linear (format : PixelFormat) (addr width height : UInt32) : SurfaceParams where
  addr := addr
  width := width
  height := height
  pixelFormat := .color format

/-- A surface that has lost its first four bytes. -/
def torn (params : SurfaceParams) : SurfaceBase :=
  { params with
    invalidRegions := IntervalSet.empty.add ⟨params.addr.toNat, params.addr.toNat + 4⟩ }

theorem getCopyableInterval_torn :
    ∃ params, (linear .RGBA8 0x18000000 4 4).updateParams = some params ∧
      ∃ i, (torn params).getCopyableInterval params = some i ∧
        (i.isEmpty = true ∨ (torn params).Copyable params i) ∧
        ∀ a, (torn params).ValidTile params a → i.isEmpty = false :=
  ⟨_, rfl, SurfaceBase.getCopyableInterval_rect _ (r := linear .RGBA8 0x18000000 4 4) rfl rfl
    ⟨rfl, by decide, by decide, by decide⟩ (by decide) ⟨by decide, by decide⟩⟩

/-- A pixel of four bits has no bytes to align to, and rows beyond the end of the address space
begin in front of the surface. -/
theorem getCopyableInterval_linear :
    (∃ params, (linear .I4 0x18000000 8 8).updateParams = some params ∧ params.levels = 1 ∧
      params.Shaped ∧ params.NoOverflow ∧ (torn params).getCopyableInterval params = none) ∧
    ∃ params i, (linear .RGBA8 0xF0000000 0x4000001 2).updateParams = some params ∧
      params.levels = 1 ∧ params.Shaped ∧ (params.isTiled = false → 8 ≤ params.pixelFormat.bpp) ∧
      (torn params).getCopyableInterval params = some i ∧ i.isEmpty = false ∧
      ¬ (torn params).Copyable params i := by
  refine ⟨⟨_, rfl, rfl, ⟨rfl, by decide, by decide, by decide⟩, ⟨by decide, by decide⟩, rfl⟩,
    _, ⟨4, 0xF0000000⟩, rfl, rfl, ⟨rfl, by decide, by decide, by decide⟩, by decide, by decide, rfl,
    fun h => ?_⟩
  have hlow := h.within_params.1
  revert hlow
  decide

end Fragments

end Cytrus.VideoCore.Geometry
