import Mathlib.Tactic
import Cytrus.Support.Painting
import Cytrus.VideoCore.TileEncoding

/-!
# The tiles of a strip

The colour conversion works on strips of eight lines. A strip is kept as tiles, which
are rotated one by one and written next to or below each other, line by line or in the
order of a texture.

## Implementation notes

Arrays are lists, and an access outside of one has no result. A pixel is read from the
tiles of a strip, whose last lines are not used where the strip is short.

## Main results

* `convertTiles_rotates`: the output is the rotated strip, with each pixel exactly once
-/

namespace Cytrus.Hw.Y2R

open Support
open VideoCore (mortonInterleave mortonInterleave_lt)
open VideoCore.SurfaceFormat (mortonX mortonY mortonX_lt mortonY_lt mortonX_mortonInterleave
  mortonY_mortonInterleave mortonInterleave_mortonX)

abbrev ImageTile := List UInt32

def tileSize : Nat := 8 * 8

inductive Rotation where
  | none
  | clockwise90
  | clockwise180
  | clockwise270
  deriving DecidableEq

inductive BlockAlignment where
  | linear
  | block8x8
  deriving DecidableEq

def linearLut : List Nat :=
  [ 0,  1,  2,  3,  4,  5,  6,  7,
    8,  9, 10, 11, 12, 13, 14, 15,
   16, 17, 18, 19, 20, 21, 22, 23,
   24, 25, 26, 27, 28, 29, 30, 31,
   32, 33, 34, 35, 36, 37, 38, 39,
   40, 41, 42, 43, 44, 45, 46, 47,
   48, 49, 50, 51, 52, 53, 54, 55,
   56, 57, 58, 59, 60, 61, 62, 63]

def mortonLut : List Nat :=
  [ 0,  1,  4,  5, 16, 17, 20, 21,
    2,  3,  6,  7, 18, 19, 22, 23,
    8,  9, 12, 13, 24, 25, 28, 29,
   10, 11, 14, 15, 26, 27, 30, 31,
   32, 33, 36, 37, 48, 49, 52, 53,
   34, 35, 38, 39, 50, 51, 54, 55,
   40, 41, 44, 45, 56, 57, 60, 61,
   42, 43, 46, 47, 58, 59, 62, 63]

/-- An assignment to an element of an array. -/
def setAt {α : Type} (l : List α) (i : Nat) (v : α) : Option (List α) :=
  if i < l.length then some (l.set i v) else none

/-- The loop of a rotation: the elements of the input in an order, each to the next place of the map. -/
def remap (outMap : List Nat) (input : ImageTile) (order : List Nat) (output : ImageTile) :
    Option ImageTile :=
  order.zipIdx.foldlM (fun output e => do
    let place ← outMap[e.2]?
    let color ← input[e.1]?
    setAt output place color) output

def rotateTile0 (input output : ImageTile) (height : Nat) (outMap : List Nat) : Option ImageTile :=
  remap outMap input (List.range (height * 8)) output

def rotateTile90 (input output : ImageTile) (height : Nat) (outMap : List Nat) : Option ImageTile :=
  remap outMap input
    ((List.range 8).flatMap fun x => (List.range height).reverse.map fun y => y * 8 + x) output

def rotateTile180 (input output : ImageTile) (height : Nat) (outMap : List Nat) : Option ImageTile :=
  remap outMap input (List.range (height * 8)).reverse output

def rotateTile270 (input output : ImageTile) (height : Nat) (outMap : List Nat) : Option ImageTile :=
  remap outMap input
    ((List.range 8).reverse.flatMap fun x => (List.range height).map fun y => y * 8 + x) output

/-- `WriteTileToOutput`, from a place of the output on. -/
def writeTileToOutput (output : List UInt32) (place : Nat) (tile : ImageTile) (height lineStride : Nat) :
    Option (List UInt32) :=
  (List.range height).foldlM (fun output y =>
    (List.range 8).foldlM (fun output x => do
      let color ← tile[y * 8 + x]?
      setAt output (place + (y * lineStride + x)) color) output) output

def BlockAlignment.tileRemap : BlockAlignment → List Nat
  | .linear => linearLut
  | .block8x8 => mortonLut

/-- What an iteration over the tiles changes: `tmp_tile`, `output_buffer` and what it points into. -/
structure TileLoop where
  tmpTile : ImageTile
  outputBuffer : Nat
  data : List UInt32

/-- The tile that an iteration works on. -/
def Rotation.tileIndex (r : Rotation) (numTiles i : Nat) : Nat :=
  match r with
  | .none | .clockwise90 => i
  | .clockwise180 | .clockwise270 => numTiles - i - 1

def Rotation.rotateTile : Rotation → ImageTile → ImageTile → Nat → List Nat → Option ImageTile
  | .none => rotateTile0
  | .clockwise90 => rotateTile90
  | .clockwise180 => rotateTile180
  | .clockwise270 => rotateTile270

def Rotation.imageStripWidth (r : Rotation) (lineWidth : Nat) : Nat :=
  match r with
  | .none | .clockwise180 => lineWidth
  | .clockwise90 | .clockwise270 => 8

def Rotation.outputStride (r : Rotation) (rowHeight : Nat) : Nat :=
  match r with
  | .none | .clockwise180 => 8
  | .clockwise90 | .clockwise270 => 8 * rowHeight

/-- An iteration of the loop over the tiles. -/
def convertTile (r : Rotation) (a : BlockAlignment) (lineWidth rowHeight : Nat)
    (tiles : List ImageTile) (s : TileLoop) (i : Nat) : Option TileLoop := do
  let tile ← tiles[r.tileIndex tiles.length i]?
  let tmpTile ← r.rotateTile tile s.tmpTile rowHeight a.tileRemap
  match a with
  | .linear =>
      let data ← writeTileToOutput s.data s.outputBuffer tmpTile rowHeight (r.imageStripWidth lineWidth)
      return ⟨tmpTile, s.outputBuffer + r.outputStride rowHeight, data⟩
  | .block8x8 =>
      let data ← writeTileToOutput s.data s.outputBuffer tmpTile 8 8
      return ⟨tmpTile, s.outputBuffer + tileSize, data⟩

/-- The loop of `PerformConversion` over the tiles of a strip. -/
def convertTiles (r : Rotation) (a : BlockAlignment) (lineWidth rowHeight : Nat)
    (tiles : List ImageTile) (tmpTile : ImageTile) (data : List UInt32) : Option (List UInt32) :=
  ((List.range tiles.length).foldlM (convertTile r a lineWidth rowHeight tiles) ⟨tmpTile, 0, data⟩).map
    TileLoop.data

/-! ### The rotated strip -/

/-- A pixel of a strip. -/
def pixel (tiles : List ImageTile) (x y : Nat) : UInt32 := (tiles.getD (x / 8) []).getD (y * 8 + x % 8) 0

/-- Where a pixel of an image comes to by a clockwise rotation. -/
def Rotation.point (r : Rotation) (width height : Nat) (p : Nat × Nat) : Nat × Nat :=
  match r with
  | .none => p
  | .clockwise90 => (height - 1 - p.2, p.1)
  | .clockwise180 => (width - 1 - p.1, height - 1 - p.2)
  | .clockwise270 => (p.2, width - 1 - p.1)

def Rotation.outputWidth (r : Rotation) (width height : Nat) : Nat :=
  match r with
  | .none | .clockwise180 => width
  | .clockwise90 | .clockwise270 => height

/-- The place of a pixel of an image: row by row, or tile by tile in Morton order. -/
def BlockAlignment.place (a : BlockAlignment) (width : Nat) (p : Nat × Nat) : Nat :=
  match a with
  | .linear => p.2 * width + p.1
  | .block8x8 => (p.2 / 8 * (width / 8) + p.1 / 8) * tileSize + mortonInterleave (p.1 % 8) (p.2 % 8)

/-- The place of a pixel of the strip in the output. -/
def outputPlace (r : Rotation) (a : BlockAlignment) (width height : Nat) (p : Nat × Nat) : Nat :=
  a.place (r.outputWidth width height) (r.point width height p)

/-! ### Rotating a tile -/

/-- The element of a tile that a rotation puts at a place. -/
def Rotation.order (r : Rotation) (height k : Nat) : Nat :=
  match r with
  | .none => k
  | .clockwise90 => (height - 1 - k % height) * 8 + k / height
  | .clockwise180 => height * 8 - 1 - k
  | .clockwise270 => k % height * 8 + (7 - k / height)

section Tile

variable {r : Rotation} {a : BlockAlignment} {height : Nat} {input : ImageTile}

theorem rotateTile_eq (hpos : 0 < height) (hheight : height ≤ 8) (input output : ImageTile)
    (outMap : List Nat) : r.rotateTile input output height outMap =
      remap outMap input ((List.range (height * 8)).map (r.order height)) output := by
  cases r
  case none => exact congrArg (remap outMap input · output) (List.map_id _).symm
  all_goals
    refine congrArg (remap outMap input · output) ?_
    interval_cases height <;> decide +kernel

theorem setAt_paints {n i : Nat} {target : Nat → UInt32} {v : UInt32} (hi : i < n) (hv : v = target i) :
    Paints n target {i} (setAt · i v) := by
  intro l hl
  refine ⟨l.set i v, if_pos (hl ▸ hi), ?_⟩
  rw [hv]
  exact painted_set (hl ▸ hi)

theorem mem_order {order : Nat → Nat} {count : Nat} {e : Nat × Nat} :
    e ∈ ((List.range count).map order).zipIdx ↔ e.2 < count ∧ e.1 = order e.2 := by
  rw [List.mem_zipIdx_iff_getElem?, List.getElem?_map, Option.map_eq_some_iff]
  constructor
  · rintro ⟨k, hk, hsource⟩
    obtain ⟨hlt, hk⟩ := List.getElem?_eq_some_iff.mp hk
    rw [List.length_range] at hlt
    rw [List.getElem_range] at hk
    exact ⟨hlt, by rw [hk, hsource]⟩
  · rintro ⟨hlt, hsource⟩
    exact ⟨e.2, List.getElem?_range hlt, hsource.symm⟩

theorem remap_paints {outMap : List Nat} {order : Nat → Nat} {count : Nat} {target : Nat → UInt32}
    (h : ∀ k < count, ∃ place < tileSize, outMap[k]? = some place ∧
      input[order k]? = some (target place)) :
    Paints tileSize target {p | ∃ e ∈ ((List.range count).map order).zipIdx, p ∈ {q | outMap[e.2]? = some q}}
      (remap outMap input ((List.range count).map order)) := by
  refine Paints.foldlM fun e he => ?_
  obtain ⟨hlt, hsource⟩ := mem_order.mp he
  obtain ⟨place, hplace, hmap, hcolor⟩ := h e.2 hlt
  have harea : {q | outMap[e.2]? = some q} = {place} := by
    ext q
    rw [Set.mem_ofPred_eq, hmap, Set.mem_singleton_iff, Option.some_inj, eq_comm]
  intro l hl
  beta_reduce
  rw [harea, hmap, hsource, Option.bind_eq_bind, Option.bind_some, hcolor]
  exact setAt_paints hplace rfl l hl

theorem writeTileToOutput_paints {tile : ImageTile} {n place lineStride : Nat} {target : Nat → UInt32}
    (h : ∀ y < height, ∀ x < 8, place + (y * lineStride + x) < n ∧
      tile[y * 8 + x]? = some (target (place + (y * lineStride + x)))) :
    Paints n target {k | ∃ y ∈ List.range height, k ∈ {k | ∃ x ∈ List.range 8,
        k ∈ ({place + (y * lineStride + x)} : Set Nat)}}
      (writeTileToOutput · place tile height lineStride) := by
  refine Paints.foldlM fun y hy => Paints.foldlM fun x hx => ?_
  obtain ⟨hlt, hcolor⟩ := h y (List.mem_range.mp hy) x (List.mem_range.mp hx)
  intro l hl
  beta_reduce
  rw [hcolor]
  exact setAt_paints hlt rfl l hl

end Tile

/-! ### The places of a strip -/

/-- The pixel of an image at a place. -/
def BlockAlignment.coordinate (a : BlockAlignment) (width k : Nat) : Nat × Nat :=
  match a with
  | .linear => (k % width, k / width)
  | .block8x8 => (k / tileSize % (width / 8) * 8 + mortonX (k % tileSize),
      k / tileSize / (width / 8) * 8 + mortonY (k % tileSize))

/-- Where a pixel of the rotated image comes from. -/
def Rotation.source (r : Rotation) (width height : Nat) (q : Nat × Nat) : Nat × Nat :=
  match r with
  | .none => q
  | .clockwise90 => (q.2, height - 1 - q.1)
  | .clockwise180 => (width - 1 - q.1, height - 1 - q.2)
  | .clockwise270 => (width - 1 - q.2, q.1)

/-- The pixel of the strip at a place of the output. -/
def sourceAt (r : Rotation) (a : BlockAlignment) (width height k : Nat) : Nat × Nat :=
  r.source width height (a.coordinate (r.outputWidth width height) k)

def Rotation.outputHeight (r : Rotation) (width height : Nat) : Nat :=
  match r with
  | .none | .clockwise180 => height
  | .clockwise90 | .clockwise270 => width

def pixels (width height : Nat) : Set (Nat × Nat) := {p | p.1 < width ∧ p.2 < height}

section Places

variable {width height : Nat} {r : Rotation} {a : BlockAlignment} {p q : Nat × Nat}

theorem Rotation.point_mem (hp : p ∈ pixels width height) :
    r.point width height p ∈ pixels (r.outputWidth width height) (r.outputHeight width height) := by
  obtain ⟨h1, h2⟩ := hp
  cases r <;> constructor <;> simp only [point, outputWidth, outputHeight] <;> omega

theorem Rotation.source_mem
    (hq : q ∈ pixels (r.outputWidth width height) (r.outputHeight width height)) :
    r.source width height q ∈ pixels width height := by
  obtain ⟨h1, h2⟩ := hq
  cases r <;> simp only [outputWidth, outputHeight] at h1 h2 <;> constructor <;>
    simp only [source] <;> omega

theorem Rotation.source_point (hp : p ∈ pixels width height) :
    r.source width height (r.point width height p) = p := by
  obtain ⟨h1, h2⟩ := hp
  cases r <;> simp only [point, source] <;> ext <;> simp only <;> omega

theorem Rotation.point_source
    (hq : q ∈ pixels (r.outputWidth width height) (r.outputHeight width height)) :
    r.point width height (r.source width height q) = q := by
  obtain ⟨h1, h2⟩ := hq
  cases r <;> simp only [outputWidth, outputHeight] at h1 h2 <;> simp only [point, source] <;>
    ext <;> simp only <;> omega

theorem row_div {d i j : Nat} (hj : j < d) : (i * d + j) / d = i ∧ (i * d + j) % d = j := by
  have hd : 0 < d := Nat.zero_lt_of_lt hj
  rw [Nat.mul_comm, Nat.mul_add_div hd, Nat.div_eq_of_lt hj, Nat.mul_add_mod, Nat.mod_eq_of_lt hj]
  exact ⟨Nat.add_zero i, rfl⟩

/-- An image that an alignment can lay out. -/
def BlockAlignment.Fits (a : BlockAlignment) (width height : Nat) : Prop :=
  a = .block8x8 → 8 ∣ width ∧ 8 ∣ height

theorem BlockAlignment.place_lt (hfits : a.Fits width height) (hp : p ∈ pixels width height) :
    a.place width p < width * height := by
  obtain ⟨h1, h2⟩ := hp
  cases a with
  | linear =>
      calc p.2 * width + p.1 < p.2 * width + width := Nat.add_lt_add_left h1 _
        _ = width * (p.2 + 1) := by ring
        _ ≤ width * height := Nat.mul_le_mul_left _ h2
  | block8x8 =>
      obtain ⟨⟨w, rfl⟩, v, rfl⟩ := hfits rfl
      have hmorton := mortonInterleave_lt (p.1 % 8) (p.2 % 8)
      have hx : p.1 / 8 < w := Nat.div_lt_of_lt_mul h1
      have hy : p.2 / 8 < v := Nat.div_lt_of_lt_mul h2
      rw [place, Nat.mul_div_cancel_left _ (by decide), tileSize]
      calc (p.2 / 8 * w + p.1 / 8) * (8 * 8) + mortonInterleave (p.1 % 8) (p.2 % 8)
          < (p.2 / 8 * w + p.1 / 8) * (8 * 8) + 8 * 8 := Nat.add_lt_add_left hmorton _
        _ = (p.2 / 8 * w + (p.1 / 8 + 1)) * (8 * 8) := by ring
        _ ≤ (p.2 / 8 * w + w) * (8 * 8) :=
            Nat.mul_le_mul_right _ (Nat.add_le_add_left hx _)
        _ = (p.2 / 8 + 1) * w * (8 * 8) := by ring
        _ ≤ v * w * (8 * 8) := Nat.mul_le_mul_right _ (Nat.mul_le_mul_right _ hy)
        _ = 8 * w * (8 * v) := by ring

theorem BlockAlignment.coordinate_mem {k : Nat} (hfits : a.Fits width height) (hk : k < width * height) :
    a.coordinate width k ∈ pixels width height := by
  have hwidth : 0 < width := Nat.pos_of_mul_pos_right (Nat.zero_lt_of_lt hk)
  cases a with
  | linear => exact ⟨Nat.mod_lt _ hwidth, Nat.div_lt_of_lt_mul hk⟩
  | block8x8 =>
      obtain ⟨⟨w, rfl⟩, v, rfl⟩ := hfits rfl
      have hw : 0 < w := Nat.pos_of_mul_pos_left hwidth
      have hx := mortonX_lt (k % tileSize)
      have hy := mortonY_lt (k % tileSize)
      have htile : k / tileSize < w * v := by
        apply Nat.div_lt_of_lt_mul
        rw [tileSize]
        calc k < 8 * w * (8 * v) := hk
          _ = 8 * 8 * (w * v) := by ring
      have hcolumn : k / tileSize % w < w := Nat.mod_lt _ hw
      have hrow : k / tileSize / w < v := Nat.div_lt_of_lt_mul htile
      rw [coordinate, Nat.mul_div_cancel_left _ (by decide)]
      constructor <;> simp only <;> omega

theorem BlockAlignment.coordinate_place (hfits : a.Fits width height) (hp : p ∈ pixels width height) :
    a.coordinate width (a.place width p) = p := by
  obtain ⟨h1, h2⟩ := hp
  have hwidth : 0 < width := Nat.zero_lt_of_lt h1
  cases a with
  | linear =>
      rw [place, coordinate, (row_div h1).1, (row_div h1).2]
  | block8x8 =>
      obtain ⟨⟨w, rfl⟩, -⟩ := hfits rfl
      have hx : p.1 / 8 < w := Nat.div_lt_of_lt_mul h1
      have hmorton : mortonInterleave (p.1 % 8) (p.2 % 8) < tileSize := mortonInterleave_lt _ _
      have hx8 : p.1 % 8 < 8 := Nat.mod_lt _ (by decide)
      have hy8 : p.2 % 8 < 8 := Nat.mod_lt _ (by decide)
      rw [place, Nat.mul_div_cancel_left _ (by decide), coordinate, (row_div hmorton).1,
        (row_div hmorton).2, Nat.mul_div_cancel_left _ (by decide), (row_div hx).1, (row_div hx).2,
        mortonX_mortonInterleave hx8 hy8, mortonY_mortonInterleave hx8 hy8, Nat.div_add_mod',
        Nat.div_add_mod']

theorem BlockAlignment.place_coordinate {k : Nat} (hfits : a.Fits width height)
    (hk : k < width * height) : a.place width (a.coordinate width k) = k := by
  cases a with
  | linear => exact Nat.div_add_mod' k width
  | block8x8 =>
      obtain ⟨⟨w, rfl⟩, -⟩ := hfits rfl
      have hx := @row_div 8 (k / tileSize % w) _ (mortonX_lt (k % tileSize))
      have hy := @row_div 8 (k / tileSize / w) _ (mortonY_lt (k % tileSize))
      have hmod : k % tileSize < 64 := Nat.mod_lt _ (by decide)
      rw [coordinate, Nat.mul_div_cancel_left _ (by decide), place, Nat.mul_div_cancel_left _ (by decide)]
      simp only [hx, hy, mortonInterleave_mortonX hmod, Nat.div_add_mod']

theorem Rotation.output_area (r : Rotation) (width height : Nat) :
    r.outputWidth width height * r.outputHeight width height = width * height := by
  cases r <;> simp only [outputWidth, outputHeight, Nat.mul_comm]

theorem outputPlace_lt (hfits : a.Fits (r.outputWidth width height) (r.outputHeight width height))
    (hp : p ∈ pixels width height) : outputPlace r a width height p < width * height := by
  rw [← r.output_area]
  exact BlockAlignment.place_lt hfits (Rotation.point_mem hp)

theorem sourceAt_outputPlace
    (hfits : a.Fits (r.outputWidth width height) (r.outputHeight width height))
    (hp : p ∈ pixels width height) : sourceAt r a width height (outputPlace r a width height p) = p := by
  rw [sourceAt, outputPlace, BlockAlignment.coordinate_place hfits (Rotation.point_mem hp),
    Rotation.source_point hp]

theorem sourceAt_mem {k : Nat} (hfits : a.Fits (r.outputWidth width height) (r.outputHeight width height))
    (hk : k < width * height) : sourceAt r a width height k ∈ pixels width height := by
  rw [← r.output_area] at hk
  exact Rotation.source_mem (BlockAlignment.coordinate_mem hfits hk)

theorem outputPlace_sourceAt {k : Nat}
    (hfits : a.Fits (r.outputWidth width height) (r.outputHeight width height))
    (hk : k < width * height) : outputPlace r a width height (sourceAt r a width height k) = k := by
  rw [← r.output_area] at hk
  rw [outputPlace, sourceAt, Rotation.point_source (BlockAlignment.coordinate_mem hfits hk),
    BlockAlignment.place_coordinate hfits hk]

theorem outputPlace_bijOn (hfits : a.Fits (r.outputWidth width height) (r.outputHeight width height)) :
    Set.BijOn (outputPlace r a width height) (pixels width height) (Set.Iio (width * height)) := by
  refine ⟨fun p hp => outputPlace_lt hfits hp, fun p hp q hq heq => ?_, fun k hk => ?_⟩
  · rw [← sourceAt_outputPlace hfits hp, heq, sourceAt_outputPlace hfits hq]
  · exact ⟨sourceAt r a width height k, sourceAt_mem hfits hk, outputPlace_sourceAt hfits hk⟩

end Places

/-! ### The loop over the tiles -/

/-- The element that comes to a place of a tile. -/
def BlockAlignment.unmap (a : BlockAlignment) (p : Nat) : Nat :=
  match a with
  | .linear => p
  | .block8x8 => mortonY p * 8 + mortonX p

section Loop

variable {r : Rotation} {a : BlockAlignment} {height : Nat} {tiles : List ImageTile}

theorem order_lt (hheight : height ≤ 8) {k : Nat} (hk : k < height * 8) :
    r.order height k < height * 8 := by
  have hpos : 0 < height := by omega
  have hmod : k % height < height := Nat.mod_lt _ hpos
  have hdiv : k / height < 8 := Nat.div_lt_of_lt_mul hk
  have hsub : 7 - k / height ≤ 7 := Nat.sub_le ..
  cases r <;> simp only [Rotation.order] <;> omega

theorem tileRemap_getElem? (a : BlockAlignment) : ∀ k < tileSize, ∃ place < tileSize,
    a.tileRemap[k]? = some place ∧ a.unmap place = k := by
  have hplaces : ∀ k < tileSize, a.tileRemap.getD k 0 < tileSize ∧
      a.tileRemap[k]? = some (a.tileRemap.getD k 0) ∧ a.unmap (a.tileRemap.getD k 0) = k := by
    cases a <;> decide +kernel
  exact fun k hk => ⟨_, hplaces k hk⟩

theorem tileRemap_unmap (a : BlockAlignment) : ∀ p < tileSize,
    a.unmap p < tileSize ∧ a.tileRemap[a.unmap p]? = some p := by
  cases a <;> decide +kernel

theorem unmap_lt (hblock : a = .block8x8 → height = 8) (hheight : height ≤ 8) {p : Nat}
    (hp : p < height * 8) : a.unmap p < height * 8 := by
  cases a with
  | linear => exact hp
  | block8x8 =>
      obtain rfl := hblock rfl
      exact (tileRemap_unmap .block8x8 p hp).1

theorem rotateTile_getElem? (hpos : 0 < height) (hheight : height ≤ 8)
    (hblock : a = .block8x8 → height = 8) {tile tmpTile : ImageTile} (htile : tile.length = tileSize)
    (htmp : tmpTile.length = tileSize) :
    ∃ out, r.rotateTile tile tmpTile height a.tileRemap = some out ∧ out.length = tileSize ∧
      ∀ p < height * 8, out[p]? = some (tile.getD (r.order height (a.unmap p)) 0) := by
  have hle : height * 8 ≤ tileSize := Nat.mul_le_mul_right 8 hheight
  have hpaints := @remap_paints tile a.tileRemap (r.order height) (height * 8)
    (fun p => tile.getD (r.order height (a.unmap p)) 0) fun k hk => by
      obtain ⟨place, hplace, hmap, hunmap⟩ := tileRemap_getElem? a k (Nat.lt_of_lt_of_le hk hle)
      refine ⟨place, hplace, hmap, ?_⟩
      rw [hunmap]
      have hlt : r.order height k < tile.length :=
        htile.symm ▸ Nat.lt_of_lt_of_le (order_lt hheight hk) hle
      rw [List.getElem?_eq_getElem hlt, List.getD_eq_getElem _ _ hlt]
  obtain ⟨out, hout, hpainted⟩ := hpaints tmpTile htmp
  refine ⟨out, by rw [rotateTile_eq hpos hheight, hout], hpainted.length.trans htmp, fun p hp => ?_⟩
  obtain ⟨-, hmap⟩ := tileRemap_unmap a p (Nat.lt_of_lt_of_le hp hle)
  exact hpainted.inside p
    ⟨(r.order height (a.unmap p), a.unmap p), mem_order.mpr ⟨unmap_lt hblock hheight hp, rfl⟩, hmap⟩

theorem pixel_tile {t x y : Nat} (hx : x < 8) :
    pixel tiles (t * 8 + x) y = (tiles.getD t []).getD (y * 8 + x) 0 := by
  rw [pixel, (row_div hx).1, (row_div hx).2]

/-- How far the output moves for a tile. -/
def tileStride (r : Rotation) (a : BlockAlignment) (height : Nat) : Nat :=
  match a with
  | .linear => r.outputStride height
  | .block8x8 => tileSize

/-- How far apart the lines of a tile are. -/
def tileLineStride (r : Rotation) (a : BlockAlignment) (width : Nat) : Nat :=
  match a with
  | .linear => r.imageStripWidth width
  | .block8x8 => 8

theorem sourceAt_tile (hpos : 0 < height) (hblock : a = .block8x8 → height = 8) {numTiles i x y : Nat}
    (hi : i < numTiles) (hx : x < 8) (hy : y < height) :
    ∃ c < 8, ∃ d, sourceAt r a (numTiles * 8) height
        (i * tileStride r a height + (y * tileLineStride r a (numTiles * 8) + x)) =
          (r.tileIndex numTiles i * 8 + c, d) ∧
      r.order height (a.unmap (y * 8 + x)) = d * 8 + c := by
  have hcolumn : i * 8 + x < numTiles * 8 := by omega
  cases a with
  | linear =>
      have hp : (y * 8 + x) / height < 8 := Nat.div_lt_of_lt_mul (by omega)
      have hmod : (y * 8 + x) % height < height := Nat.mod_lt _ hpos
      have hrow : i * (8 * height) + (y * 8 + x) =
          (i * 8 + (y * 8 + x) / height) * height + (y * 8 + x) % height := by
        rw [Nat.add_mul, Nat.add_assoc, Nat.div_add_mod', Nat.mul_assoc]
      have hline : i * 8 + (y * (numTiles * 8) + x) = y * (numTiles * 8) + (i * 8 + x) := by omega
      cases r with
      | none =>
          refine ⟨x, hx, y, ?_, rfl⟩
          simp only [sourceAt, tileStride, tileLineStride, Rotation.outputStride, Rotation.imageStripWidth,
            BlockAlignment.coordinate, Rotation.outputWidth, Rotation.source, Rotation.tileIndex, hline,
            row_div hcolumn]
      | clockwise90 =>
          refine ⟨(y * 8 + x) / height, hp, height - 1 - (y * 8 + x) % height, ?_, rfl⟩
          simp only [sourceAt, tileStride, tileLineStride, Rotation.outputStride, Rotation.imageStripWidth,
            BlockAlignment.coordinate, Rotation.outputWidth, Rotation.source, Rotation.tileIndex, hrow,
            row_div hmod]
      | clockwise180 =>
          refine ⟨7 - x, by omega, height - 1 - y, ?_, ?_⟩
          · simp only [sourceAt, tileStride, tileLineStride, Rotation.outputStride,
              Rotation.imageStripWidth, BlockAlignment.coordinate, Rotation.outputWidth, Rotation.source,
              Rotation.tileIndex, hline, row_div hcolumn]
            rw [Prod.mk.injEq]
            omega
          · simp only [Rotation.order, BlockAlignment.unmap]
            omega
      | clockwise270 =>
          refine ⟨7 - (y * 8 + x) / height, Nat.lt_succ_of_le (Nat.sub_le ..), (y * 8 + x) % height, ?_, rfl⟩
          simp only [sourceAt, tileStride, tileLineStride, Rotation.outputStride, Rotation.imageStripWidth,
            BlockAlignment.coordinate, Rotation.outputWidth, Rotation.source, Rotation.tileIndex, hrow,
            row_div hmod]
          rw [Prod.mk.injEq]
          omega
  | block8x8 =>
      obtain rfl := hblock rfl
      have hpiece : y * 8 + x < tileSize := by
        rw [tileSize]
        omega
      have hu := mortonX_lt (y * 8 + x)
      have hv := mortonY_lt (y * 8 + x)
      have hmap := @row_div 8 (mortonY (y * 8 + x)) _ hu
      have hcolumns : i % numTiles = i := Nat.mod_eq_of_lt hi
      have hrows : i / numTiles = 0 := Nat.div_eq_of_lt hi
      have htiles : numTiles * 8 / 8 = numTiles := Nat.mul_div_cancel _ (by decide)
      cases r with
      | none =>
          refine ⟨mortonX (y * 8 + x), hu, mortonY (y * 8 + x), ?_, rfl⟩
          simp only [sourceAt, tileStride, tileLineStride, BlockAlignment.coordinate,
            Rotation.outputWidth, Rotation.source, Rotation.tileIndex, row_div hpiece, htiles, hcolumns,
            hrows, Nat.zero_mul, Nat.zero_add]
      | clockwise90 =>
          refine ⟨mortonY (y * 8 + x), hv, 7 - mortonX (y * 8 + x), ?_, ?_⟩
          · simp only [sourceAt, tileStride, tileLineStride, BlockAlignment.coordinate,
              Rotation.outputWidth, Rotation.source, Rotation.tileIndex, row_div hpiece, Nat.mod_one,
              Nat.div_one, Nat.zero_mul, Nat.zero_add, Nat.reduceDiv, Nat.reduceSub]
          · simp only [Rotation.order, BlockAlignment.unmap, hmap]
      | clockwise180 =>
          refine ⟨7 - mortonX (y * 8 + x), by omega, 7 - mortonY (y * 8 + x), ?_, ?_⟩
          · simp only [sourceAt, tileStride, tileLineStride, BlockAlignment.coordinate,
              Rotation.outputWidth, Rotation.source, Rotation.tileIndex, row_div hpiece, htiles, hcolumns,
              hrows, Nat.zero_mul, Nat.zero_add]
            rw [Prod.mk.injEq]
            omega
          · simp only [Rotation.order, BlockAlignment.unmap]
            omega
      | clockwise270 =>
          refine ⟨7 - mortonY (y * 8 + x), by omega, mortonX (y * 8 + x), ?_, ?_⟩
          · simp only [sourceAt, tileStride, tileLineStride, BlockAlignment.coordinate,
              Rotation.outputWidth, Rotation.source, Rotation.tileIndex, row_div hpiece,
              Nat.mod_one, Nat.div_one, Nat.zero_mul, Nat.zero_add, Nat.reduceDiv]
            rw [Prod.mk.injEq]
            omega
          · simp only [Rotation.order, BlockAlignment.unmap, hmap]

end Loop

section Steps

variable {r : Rotation} {a : BlockAlignment} {height : Nat} {tiles : List ImageTile} {size : Nat}

def target (r : Rotation) (a : BlockAlignment) (height : Nat) (tiles : List ImageTile) (k : Nat) :
    UInt32 :=
  let p := sourceAt r a (tiles.length * 8) height k
  pixel tiles p.1 p.2

theorem tilePlace_lt (hblock : a = .block8x8 → height = 8) {numTiles i x y : Nat}
    (hi : i < numTiles) (hx : x < 8) (hy : y < height) :
    i * tileStride r a height + (y * tileLineStride r a (numTiles * 8) + x) < numTiles * 8 * height := by
  have htile : i * (8 * height) + (y * 8 + x) < numTiles * 8 * height := by
    calc i * (8 * height) + (y * 8 + x) < i * (8 * height) + 8 * height := by omega
      _ = (i + 1) * (8 * height) := by ring
      _ ≤ numTiles * (8 * height) := Nat.mul_le_mul_right _ hi
      _ = numTiles * 8 * height := (Nat.mul_assoc ..).symm
  have hline : i * 8 + (y * (numTiles * 8) + x) < numTiles * 8 * height := by
    calc i * 8 + (y * (numTiles * 8) + x) < y * (numTiles * 8) + numTiles * 8 := by omega
      _ = numTiles * 8 * (y + 1) := by ring
      _ ≤ numTiles * 8 * height := Nat.mul_le_mul_left _ hy
  cases a with
  | linear => cases r <;> assumption
  | block8x8 =>
      obtain rfl := hblock rfl
      exact htile

theorem target_tile (hpos : 0 < height) (hblock : a = .block8x8 → height = 8) {i x y : Nat}
    (hi : i < tiles.length) (hx : x < 8) (hy : y < height) :
    target r a height tiles
        (i * tileStride r a height + (y * tileLineStride r a (tiles.length * 8) + x)) =
      (tiles.getD (r.tileIndex tiles.length i) []).getD (r.order height (a.unmap (y * 8 + x))) 0 := by
  obtain ⟨c, hc, d, hsource, horder⟩ := @sourceAt_tile r a height hpos hblock _ _ _ _ hi hx hy
  rw [target, hsource, horder]
  exact pixel_tile hc

/-- The places that a tile is written to. -/
def writtenPlaces (place height lineStride : Nat) : Set Nat :=
  {k | ∃ y ∈ List.range height, k ∈ {k | ∃ x ∈ List.range 8,
    k ∈ ({place + (y * lineStride + x)} : Set Nat)}}

/-- The places of a tile in the output. -/
def tilePlaces (r : Rotation) (a : BlockAlignment) (height width i : Nat) : Set Nat :=
  writtenPlaces (i * tileStride r a height) height (tileLineStride r a width)

theorem tileIndex_lt {numTiles i : Nat} (hi : i < numTiles) : r.tileIndex numTiles i < numTiles := by
  cases r <;> simp only [Rotation.tileIndex] <;> omega

theorem convertTile_painted (hpos : 0 < height) (hheight : height ≤ 8)
    (hblock : a = .block8x8 → height = 8) (htiles : ∀ tile ∈ tiles, tile.length = tileSize)
    (hsize : tiles.length * 8 * height ≤ size) {i : Nat} (hi : i < tiles.length) {s : TileLoop}
    (htmp : s.tmpTile.length = tileSize) (hplace : s.outputBuffer = i * tileStride r a height)
    (hdata : s.data.length = size) :
    ∃ t, convertTile r a (tiles.length * 8) height tiles s i = some t ∧ t.tmpTile.length = tileSize ∧
      t.outputBuffer = (i + 1) * tileStride r a height ∧
      Painted (target r a height tiles) (tilePlaces r a height (tiles.length * 8) i) s.data t.data := by
  have hindex := @tileIndex_lt r _ _ hi
  have htile := List.getElem?_eq_getElem hindex
  obtain ⟨out, hout, hlength, hpixels⟩ := rotateTile_getElem? (r := r) hpos hheight hblock
    (htiles _ (List.getElem_mem hindex)) htmp
  have hwrite : Paints size (target r a height tiles) (tilePlaces r a height (tiles.length * 8) i)
      (writeTileToOutput · (i * tileStride r a height) out height
        (tileLineStride r a (tiles.length * 8))) := by
    refine writeTileToOutput_paints fun y hy x hx => ⟨?_, ?_⟩
    · exact Nat.lt_of_lt_of_le (tilePlace_lt hblock hi hx hy) hsize
    · rw [target_tile hpos hblock hi hx hy, List.getD_eq_getElem _ _ hindex]
      exact hpixels _ (by omega)
  obtain ⟨data, hdata, hpainted⟩ := hwrite s.data hdata
  have hnext : i * tileStride r a height + tileStride r a height = (i + 1) * tileStride r a height :=
    (Nat.succ_mul ..).symm
  simp only [convertTile, htile, Option.bind_eq_bind, Option.bind_some, hout, hplace]
  cases a with
  | linear =>
      simp only [tileStride, tileLineStride] at hdata hnext ⊢
      simp only [hdata, Option.bind_some, Option.pure_def]
      exact ⟨_, rfl, hlength, hnext, hpainted⟩
  | block8x8 =>
      obtain rfl := hblock rfl
      simp only [tileStride, tileLineStride] at hdata hnext ⊢
      simp only [hdata, Option.bind_some, Option.pure_def]
      exact ⟨_, rfl, hlength, hnext, hpainted⟩

/-- By induction on the tiles that are left. -/
theorem foldlM_convertTile_painted (hpos : 0 < height) (hheight : height ≤ 8)
    (hblock : a = .block8x8 → height = 8) (htiles : ∀ tile ∈ tiles, tile.length = tileSize)
    (hsize : tiles.length * 8 * height ≤ size) (count : Nat) : ∀ (first : Nat) (s : TileLoop),
      first + count = tiles.length → s.tmpTile.length = tileSize →
      s.outputBuffer = first * tileStride r a height → s.data.length = size →
      ∃ t, (List.range' first count).foldlM (convertTile r a (tiles.length * 8) height tiles) s =
          some t ∧
        Painted (target r a height tiles)
          {k | ∃ i ∈ List.range' first count, k ∈ tilePlaces r a height (tiles.length * 8) i}
          s.data t.data := by
  induction count with
  | zero =>
      intro first s _ _ _ _
      have hnone : {k | ∃ i ∈ List.range' first 0, k ∈ tilePlaces r a height (tiles.length * 8) i} =
          ∅ := by
        ext k
        simp
      exact ⟨s, rfl, hnone ▸ .refl⟩
  | succ count ih =>
      intro first s hcount htmp hplace hdata
      obtain ⟨t, ht, htmp', hplace', hpainted⟩ := convertTile_painted hpos hheight hblock htiles hsize
        (i := first) (by omega) htmp hplace hdata
      obtain ⟨u, hu, hrest⟩ := ih (first + 1) t (by omega) htmp' hplace' (hpainted.length.trans hdata)
      have hsplit : {k | ∃ i ∈ List.range' first (count + 1),
            k ∈ tilePlaces r a height (tiles.length * 8) i} =
          tilePlaces r a height (tiles.length * 8) first ∪
            {k | ∃ i ∈ List.range' (first + 1) count,
              k ∈ tilePlaces r a height (tiles.length * 8) i} := by
        ext k
        rw [List.range'_succ]
        simp
      rw [hsplit, List.range'_succ, List.foldlM_cons, ht]
      exact ⟨u, hu, hpainted.trans hrest⟩

theorem mem_tilePlaces (hpos : 0 < height) (hblock : a = .block8x8 → height = 8) {numTiles k : Nat}
    (hk : k < numTiles * 8 * height) : ∃ i < numTiles, k ∈ tilePlaces r a height (numTiles * 8) i := by
  have hpiece (y x : Nat) (place lineStride : Nat) (hy : y < height) (hx : x < 8)
      (heq : k = place + (y * lineStride + x)) : k ∈ writtenPlaces place height lineStride :=
    ⟨y, List.mem_range.mpr hy, x, List.mem_range.mpr hx, heq⟩
  have htile : ∃ i < numTiles, k ∈ writtenPlaces (i * (8 * height)) height 8 := by
    have hrest : k % (8 * height) < 8 * height := Nat.mod_lt _ (by omega)
    refine ⟨k / (8 * height), Nat.div_lt_of_lt_mul ?_, hpiece (k % (8 * height) / 8)
      (k % (8 * height) % 8) _ _ (Nat.div_lt_of_lt_mul hrest) (Nat.mod_lt _ (by decide)) ?_⟩
    · rw [Nat.mul_comm, ← Nat.mul_assoc]
      exact hk
    · rw [Nat.div_add_mod', Nat.div_add_mod']
  have hline : ∃ i < numTiles, k ∈ writtenPlaces (i * 8) height (numTiles * 8) := by
    have hwidth : 0 < numTiles * 8 := Nat.pos_of_mul_pos_right (Nat.zero_lt_of_lt hk)
    have hrest : k % (numTiles * 8) < numTiles * 8 := Nat.mod_lt _ hwidth
    refine ⟨k % (numTiles * 8) / 8, Nat.div_lt_of_lt_mul (hrest.trans_eq (Nat.mul_comm ..)),
      hpiece (k / (numTiles * 8)) (k % (numTiles * 8) % 8) _ _ (Nat.div_lt_of_lt_mul hk)
        (Nat.mod_lt _ (by decide)) ?_⟩
    have hsplit := Nat.div_add_mod' k (numTiles * 8)
    omega
  cases a with
  | linear => cases r <;> assumption
  | block8x8 =>
      obtain rfl := hblock rfl
      exact htile

end Steps

theorem convertTiles_painted (r : Rotation) {a : BlockAlignment} {height : Nat}
    {tiles : List ImageTile} {tmpTile : ImageTile} {data : List UInt32}
    (hpos : 0 < height) (hheight : height ≤ 8) (hblock : a = .block8x8 → height = 8)
    (htiles : ∀ tile ∈ tiles, tile.length = tileSize) (htmp : tmpTile.length = tileSize)
    (hdata : tiles.length * 8 * height ≤ data.length) :
    ∃ out, convertTiles r a (tiles.length * 8) height tiles tmpTile data = some out ∧
      Painted (target r a height tiles)
        {k | ∃ i ∈ List.range tiles.length, k ∈ tilePlaces r a height (tiles.length * 8) i} data out := by
  obtain ⟨t, ht, hpainted⟩ := foldlM_convertTile_painted (r := r) hpos hheight hblock htiles hdata
    tiles.length 0 ⟨tmpTile, 0, data⟩ (Nat.zero_add _) htmp (Nat.zero_mul _).symm rfl
  rw [← List.range_eq_range'] at ht hpainted
  exact ⟨t.data, by rw [convertTiles, ht]; rfl, hpainted⟩

/-- The strip is rotated as a whole, whatever its pixels are and what the output held before:
each pixel has the place in the output that it has in the rotated image, and no two have the same. -/
theorem convertTiles_rotates (r : Rotation) (a : BlockAlignment) (height : Nat)
    (tiles : List ImageTile) (tmpTile : ImageTile) (data : List UInt32)
    (hpos : 0 < height) (hheight : height ≤ 8) (hblock : a = .block8x8 → height = 8)
    (htiles : ∀ tile ∈ tiles, tile.length = tileSize) (htmp : tmpTile.length = tileSize)
    (hdata : tiles.length * 8 * height ≤ data.length) :
    ∃ out, convertTiles r a (tiles.length * 8) height tiles tmpTile data = some out ∧
      (∀ x < tiles.length * 8, ∀ y < height,
        out[outputPlace r a (tiles.length * 8) height (x, y)]? = some (pixel tiles x y)) ∧
      Set.BijOn (outputPlace r a (tiles.length * 8) height) (pixels (tiles.length * 8) height)
        (Set.Iio (tiles.length * 8 * height)) := by
  have hfits : a.Fits (r.outputWidth (tiles.length * 8) height)
      (r.outputHeight (tiles.length * 8) height) := by
    intro ha
    obtain rfl := hblock ha
    have hwidth : 8 ∣ tiles.length * 8 := Dvd.intro_left _ rfl
    cases r
    · exact ⟨hwidth, dvd_refl 8⟩
    · exact ⟨dvd_refl 8, hwidth⟩
    · exact ⟨hwidth, dvd_refl 8⟩
    · exact ⟨dvd_refl 8, hwidth⟩
  obtain ⟨out, hout, hpainted⟩ := convertTiles_painted r hpos hheight hblock htiles htmp hdata
  refine ⟨out, hout, fun x hx y hy => ?_, outputPlace_bijOn hfits⟩
  have hmem : (x, y) ∈ pixels (tiles.length * 8) height := ⟨hx, hy⟩
  obtain ⟨i, hi, hplace⟩ := mem_tilePlaces (r := r) hpos hblock (outputPlace_lt hfits hmem)
  rw [hpainted.inside _ ⟨i, List.mem_range.mpr hi, hplace⟩, target, sourceAt_outputPlace hfits hmem]

/-- Two tiles of three lines, rotated by a right angle. -/
theorem convertTiles_rotates_short : ∃ out,
    convertTiles .clockwise90 .linear (2 * 8) 3 [List.replicate 64 1, List.replicate 64 2]
        (List.replicate 64 0) (List.replicate 128 0) = some out ∧
      (∀ x < 2 * 8, ∀ y < 3, out[outputPlace .clockwise90 .linear (2 * 8) 3 (x, y)]? =
        some (pixel [List.replicate 64 1, List.replicate 64 2] x y)) ∧
      Set.BijOn (outputPlace .clockwise90 .linear (2 * 8) 3) (pixels (2 * 8) 3) (Set.Iio (2 * 8 * 3)) :=
  convertTiles_rotates .clockwise90 .linear 3 [List.replicate 64 1, List.replicate 64 2]
    (List.replicate 64 0) (List.replicate 128 0) (by decide) (by decide)
    (fun h => BlockAlignment.noConfusion h) (by simp [tileSize]) List.length_replicate
    (by rw [List.length_replicate]; decide)

end Cytrus.Hw.Y2R
