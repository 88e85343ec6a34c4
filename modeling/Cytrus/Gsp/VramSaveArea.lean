import Cytrus.Support.RawMemory

/-!
# Saving and restoring VRAM

`SaveVramSysArea` keeps a copy of VRAM, captures the framebuffers of the active
thread in VRAM and shows these captures. `RestoreVramSysArea` copies VRAM back
and shows the framebuffers of the thread again, but takes the index of the top
screen for the bottom one.

## Main results

* `captureAll_isSome`: the captures only read what memory holds
* `restore_save`: what is there after both
* `restore_save_iff`: when each screen shows the framebuffer of its own index

## Implementation notes

Memory is the memory of the host. What lies at an address that a page points to
may be anything, and VRAM lies at one place. Reading what is not there has no
result. The copies of memory that the rasterizer has are left out. A block that
is copied over itself is read before it is written.
-/

namespace Cytrus.Gsp

open Support

/-! ## Registers -/

structure FrameBufferInfo where
  activeFb : UInt32
  addressLeft : UInt32
  addressRight : UInt32
  stride : UInt32
  format : UInt32
  shownFb : UInt32

/-- `FrameBufferUpdate`; the index is one bit. -/
structure FrameBufferUpdate where
  index : Bool
  framebufferInfo : Bool → FrameBufferInfo

@[ext] structure FramebufferConfig where
  addressLeft1 : UInt32
  addressLeft2 : UInt32
  format : UInt32
  activeFb : UInt32
  stride : UInt32
  addressRight1 : UInt32
  addressRight2 : UInt32

inductive Screen
  | top
  | bottom
  deriving DecidableEq

def vramVaddr : UInt32 := 0x1F000000
def vramVaddrEnd : UInt32 := 0x1F600000
def vramPaddr : UInt32 := 0x18000000
def vramSize : Nat := 0x600000
def linearHeapVaddr : UInt32 := 0x14000000
def linearHeapVaddrEnd : UInt32 := 0x1C000000
def newLinearHeapVaddr : UInt32 := 0x30000000
def newLinearHeapVaddrEnd : UInt32 := 0x40000000
def fcramPaddr : UInt32 := 0x20000000
def plugin3GXFbVaddr : UInt32 := 0x06000000
def plugin3GXFbVaddrEnd : UInt32 := 0x060A9000

def virtualToPhysicalAddress (plugin3GXFramebufferAddress addr : UInt32) : UInt32 :=
  if addr = 0 then 0
  else if vramVaddr ≤ addr ∧ addr ≤ vramVaddrEnd then addr - vramVaddr + vramPaddr
  else if linearHeapVaddr ≤ addr ∧ addr ≤ linearHeapVaddrEnd then
    addr - linearHeapVaddr + fcramPaddr
  else if newLinearHeapVaddr ≤ addr ∧ addr ≤ newLinearHeapVaddrEnd then
    addr - newLinearHeapVaddr + fcramPaddr
  else if plugin3GXFbVaddr ≤ addr ∧ addr ≤ plugin3GXFbVaddrEnd ∧
      plugin3GXFramebufferAddress ≠ 0 then
    addr - plugin3GXFbVaddr + plugin3GXFramebufferAddress
  else addr

/-- `SetBufferSwap` for the registers of a screen. -/
def FramebufferConfig.setBufferSwap (toPhysical : UInt32 → UInt32) (framebuffer : FramebufferConfig)
    (info : FrameBufferInfo) : FramebufferConfig :=
  let swapped :=
    if info.activeFb = 0 then
      { framebuffer with
        addressLeft1 := toPhysical info.addressLeft
        addressRight1 := toPhysical info.addressRight }
    else
      { framebuffer with
        addressLeft2 := toPhysical info.addressLeft
        addressRight2 := toPhysical info.addressRight }
  { swapped with
    stride := info.stride
    format := info.format
    activeFb := info.shownFb }

/-! ## Memory -/

/-- Memory of the host, with VRAM at the address `vram` of it and in every page table. -/
structure HostMemory where
  bytes : RawMemory UInt8
  getPointer : UInt32 → Option Nat
  vram : Nat
  mapped : ∀ i < vramSize, getPointer (vramVaddr + UInt32.ofNat i) = some (vram + i)
  allocated : bytes.Readable vram vramSize

namespace HostMemory

variable (m : HostMemory)

/-- Other bytes at the same addresses. -/
def withBytes (bytes : RawMemory UInt8) (h : bytes.Readable m.vram vramSize) : HostMemory :=
  { m with
    bytes := bytes
    allocated := h }

/-- Memory after an operation on the bytes. -/
def update (bytes : Option (RawMemory UInt8)) : Option HostMemory :=
  bytes.bind fun bytes =>
    if h : bytes.Readable m.vram vramSize then some (m.withBytes bytes h) else none

def copyFrameBuffer (dst src dstStride srcStride : UInt32) (lines : Nat) : Option HostMemory :=
  match m.getPointer dst, m.getPointer src with
  | some dstPtr, some srcPtr =>
      m.update (RawMemory.moveRows dstStride.toNat srcStride.toNat (min srcStride dstStride).toNat
        m.bytes dstPtr srcPtr lines)
  | _, _ => some m

def clearFramebuffer (dst dstStride : UInt32) (lines : Nat) : Option HostMemory :=
  match m.getPointer dst with
  | some dstPtr => m.update (RawMemory.fillRows 0 dstStride.toNat m.bytes dstPtr lines)
  | none => some m

def vramBytes (i : Nat) : Option UInt8 := m.bytes (m.vram + i)

/-- The bytes of VRAM that are saved. -/
def saved (i : Nat) : UInt8 := (m.vramBytes i).getD 0

/-- The bytes of VRAM that are restored. -/
def restored (saved : Nat → UInt8) : RawMemory UInt8 := fun a =>
  if m.vram ≤ a ∧ a < m.vram + vramSize then some (saved (a - m.vram)) else m.bytes a

theorem restored_readable (saved : Nat → UInt8) :
    (m.restored saved).Readable m.vram vramSize := by
  intro i hi
  rw [restored, if_pos ⟨Nat.le_add_right _ _, Nat.add_lt_add_left hi _⟩, Option.isSome_some]

end HostMemory

/-! ## The service -/

def framebufferSaveAreaTopLeft : UInt32 := vramVaddr + 0x273000
def framebufferSaveAreaTopRight : UInt32 := vramVaddr + 0x2B9800
def framebufferSaveAreaBottom : UInt32 := vramVaddr + 0x4C7800
def framebufferWidth : UInt32 := 240
def topFramebufferHeight : Nat := 400
def bottomFramebufferHeight : Nat := 320

def bppPerFormat : List UInt32 := [4, 3, 2, 2, 2, 0, 0, 0]

def FrameBufferInfo.getPixelFormat (info : FrameBufferInfo) : UInt32 := info.format &&& 7

/-- The bytes of a pixel of a framebuffer. -/
def FrameBufferInfo.bytesPerPixel (info : FrameBufferInfo) : UInt32 :=
  bppPerFormat.getD info.getPixelFormat.toNat 0

/-- The part of `GSP_GPU` that saving VRAM depends on, with the registers of the screens. -/
structure GspGpuVram where
  activeThreadId : Option (Fin 4)
  frameBufferInfo : Fin 4 → Screen → FrameBufferUpdate
  memory : HostMemory
  plugin3GXFramebufferAddress : UInt32
  framebufferConfig : Screen → FramebufferConfig
  savedVram : Option (Nat → UInt8) := none

namespace GspGpuVram

variable (g : GspGpuVram)

/-- The framebuffer that a screen of a thread has chosen. -/
def chosen (thread : Fin 4) (screen : Screen) : FrameBufferInfo :=
  (g.frameBufferInfo thread screen).framebufferInfo (g.frameBufferInfo thread screen).index

def setBufferSwap (screen : Screen) (info : FrameBufferInfo) : GspGpuVram :=
  { g with
    framebufferConfig := Function.update g.framebufferConfig screen
      ((g.framebufferConfig screen).setBufferSwap
        (virtualToPhysicalAddress g.plugin3GXFramebufferAddress) info) }

/-- A framebuffer of `SaveVramSysArea` that is captured, or cleared where there is none. -/
def capture (memory : HostMemory) (saveArea address stride bytesPerPixel : UInt32) (lines : Nat) :
    Option HostMemory :=
  if address ≠ 0 ∧ bytesPerPixel ≠ 0 ∧ bytesPerPixel ≠ 4 then
    memory.copyFrameBuffer saveArea address (framebufferWidth * bytesPerPixel) stride lines
  else memory.clearFramebuffer saveArea (framebufferWidth * bytesPerPixel) lines

/-- The captures of `SaveVramSysArea`. -/
def captureAll (memory : HostMemory) (top bottom : FrameBufferInfo) : Option HostMemory :=
  (capture memory framebufferSaveAreaTopLeft top.addressLeft top.stride top.bytesPerPixel
    topFramebufferHeight).bind fun memory =>
      (capture memory framebufferSaveAreaTopRight top.addressRight top.stride top.bytesPerPixel
        topFramebufferHeight).bind fun memory =>
          capture memory framebufferSaveAreaBottom bottom.addressLeft bottom.stride
            bottom.bytesPerPixel bottomFramebufferHeight

/-- What the top screen shows while VRAM is saved. -/
def topCapture (top : FrameBufferInfo) : FrameBufferInfo :=
  { top with
    addressLeft := framebufferSaveAreaTopLeft
    addressRight := framebufferSaveAreaTopRight
    stride := framebufferWidth * top.bytesPerPixel }

/-- What the bottom screen shows while VRAM is saved. -/
def bottomCapture (bottom : FrameBufferInfo) : FrameBufferInfo :=
  { bottom with
    addressLeft := framebufferSaveAreaBottom
    stride := framebufferWidth * bottom.bytesPerPixel }

/-- `SaveVramSysArea`, with the result code. -/
def saveVramSysArea : Option (UInt32 × GspGpuVram) :=
  match g.activeThreadId with
  | none => some (0xFFFFFFFF, g)
  | some thread =>
      let top := g.chosen thread .top
      let bottom := g.chosen thread .bottom
      (captureAll g.memory top bottom).map fun memory =>
        (0, ({ g with
          memory := memory
          savedVram := some g.memory.saved }.setBufferSwap .top (topCapture top)).setBufferSwap
            .bottom (bottomCapture bottom))

/-- `RestoreVramSysArea`, which has no framebuffers to look at without an active thread. -/
def restoreVramSysArea : Option (UInt32 × GspGpuVram) :=
  let memory :=
    match g.savedVram with
    | some saved => g.memory.withBytes (g.memory.restored saved) (g.memory.restored_readable saved)
    | none => g.memory
  match g.activeThreadId with
  | none => none
  | some thread =>
      let top := g.frameBufferInfo thread .top
      let bottom := g.frameBufferInfo thread .bottom
      some (0, ({ g with memory := memory }.setBufferSwap .top
        (top.framebufferInfo top.index)).setBufferSwap .bottom (bottom.framebufferInfo top.index))

end GspGpuVram

/-! ## Captures -/

namespace HostMemory

variable {m m' m'' : HostMemory}

/-- Memory that is the same outside of VRAM, and not less of it. -/
structure Scribbled (m m' : HostMemory) : Prop where
  getPointer : m'.getPointer = m.getPointer
  vram : m'.vram = m.vram
  bytes : RawMemory.SameOutside m.vram (m.vram + vramSize) m.bytes m'.bytes

theorem Scribbled.refl : m.Scribbled m := ⟨rfl, rfl, .refl⟩

theorem Scribbled.trans (h : m.Scribbled m') (h' : m'.Scribbled m'') : m.Scribbled m'' where
  getPointer := h'.getPointer.trans h.getPointer
  vram := h'.vram.trans h.vram
  bytes := h.bytes.trans (by rw [← h.vram]; exact h'.bytes)

/-- The lines of a framebuffer that is captured lie in memory. -/
def Capturable (m : HostMemory) (address stride bytesPerPixel : UInt32) (lines : Nat) : Prop :=
  address ≠ 0 → bytesPerPixel ≠ 0 → bytesPerPixel ≠ 4 → ∀ p, m.getPointer address = some p →
    ∀ y < lines, m.bytes.Readable (p + stride.toNat * y)
      (min stride (framebufferWidth * bytesPerPixel)).toNat

theorem Scribbled.capturable_iff (h : m.Scribbled m') (address stride bytesPerPixel : UInt32)
    (lines : Nat) : m'.Capturable address stride bytesPerPixel lines ↔
      m.Capturable address stride bytesPerPixel lines := by
  simp only [Capturable, h.getPointer, h.bytes.readable_iff]

/-- What an operation does that only writes to VRAM. -/
theorem update_scribbled {bytes : Option (RawMemory UInt8)}
    (hsame : ∀ b, bytes = some b → RawMemory.SameOutside m.vram (m.vram + vramSize) m.bytes b)
    (h : m.update bytes = some m') : m.Scribbled m' := by
  obtain ⟨b, hb, hm'⟩ := Option.bind_eq_some_iff.mp h
  split at hm'
  · cases hm'
    exact ⟨rfl, rfl, hsame b hb⟩
  · cases hm'

theorem update_isSome {bytes : Option (RawMemory UInt8)}
    (hsame : ∀ b, bytes = some b → RawMemory.SameOutside m.vram (m.vram + vramSize) m.bytes b) :
    (m.update bytes).isSome ↔ bytes.isSome := by
  cases hbytes : bytes with
  | none => rfl
  | some b =>
      have hreadable : b.Readable m.vram vramSize :=
        ((hsame b hbytes).readable_iff _ _).mpr m.allocated
      rw [update, Option.bind_some, dif_pos hreadable]
      exact Iff.rfl

end HostMemory

namespace GspGpuVram

section Capture

variable {m m' : HostMemory} {saveArea address stride bytesPerPixel : UInt32} {lines offset : Nat}

theorem toNat_bytesPerPixel_le (info : FrameBufferInfo) : info.bytesPerPixel.toNat ≤ 4 := by
  have hall : ∀ x ∈ bppPerFormat, x.toNat ≤ 4 := by simp [bppPerFormat]
  rw [FrameBufferInfo.bytesPerPixel, List.getD_eq_getElem?_getD]
  cases h : bppPerFormat[info.getPixelFormat.toNat]? with
  | none => exact Nat.zero_le 4
  | some x => exact hall x (List.mem_of_getElem? h)

theorem toNat_width (hbytes : bytesPerPixel.toNat ≤ 4) :
    (framebufferWidth * bytesPerPixel).toNat ≤ 960 := by
  have hwidth : framebufferWidth.toNat = 240 := rfl
  have hproduct : 240 * bytesPerPixel.toNat ≤ 960 := Nat.mul_le_mul_left 240 hbytes
  rw [UInt32.toNat_mul, hwidth]
  exact (Nat.mod_le _ _).trans hproduct

theorem lines_le {dstStride : UInt32} (hstride : dstStride.toNat ≤ 960)
    (hroom : offset + 960 * lines ≤ vramSize) : offset + dstStride.toNat * lines ≤ vramSize :=
  (Nat.add_le_add_left (Nat.mul_le_mul_right lines hstride) offset).trans hroom

section Lines

variable {dstStride srcStride src : UInt32}

/-- What is copied to a save area is written to VRAM only. -/
theorem moveRows_sameOutside (hspace : offset + dstStride.toNat * lines ≤ vramSize) {srcPtr : Nat}
    (b : RawMemory UInt8)
    (h : RawMemory.moveRows dstStride.toNat srcStride.toNat (min srcStride dstStride).toNat m.bytes
      (m.vram + offset) srcPtr lines = some b) :
    RawMemory.SameOutside m.vram (m.vram + vramSize) m.bytes b := by
  refine (RawMemory.moveRows_sameOutside ?_ h).mono (Nat.le_add_right _ _) (by omega)
  rw [UInt32.toNat_min]
  exact min_le_right _ _

theorem fillRows_sameOutside (hspace : offset + dstStride.toNat * lines ≤ vramSize)
    (b : RawMemory UInt8)
    (h : RawMemory.fillRows 0 dstStride.toNat m.bytes (m.vram + offset) lines = some b) :
    RawMemory.SameOutside m.vram (m.vram + vramSize) m.bytes b :=
  (RawMemory.fillRows_sameOutside h).mono (Nat.le_add_right _ _) (by omega)

theorem copyFrameBuffer_isSome (hptr : m.getPointer saveArea = some (m.vram + offset))
    (hspace : offset + dstStride.toNat * lines ≤ vramSize) :
    (m.copyFrameBuffer saveArea src dstStride srcStride lines).isSome ↔
      ∀ p, m.getPointer src = some p → ∀ y < lines,
        m.bytes.Readable (p + srcStride.toNat * y) (min srcStride dstStride).toNat := by
  rw [HostMemory.copyFrameBuffer, hptr]
  cases hsrc : m.getPointer src with
  | none => exact iff_of_true rfl fun p hp => absurd hp (Option.some_ne_none p).symm
  | some srcPtr =>
      have hdst : m.bytes.Readable (m.vram + offset) (dstStride.toNat * lines) :=
        m.allocated.sub (Nat.le_add_right _ _) (by omega)
      have hmin : (min srcStride dstStride).toNat ≤ dstStride.toNat := by
        rw [UInt32.toNat_min]
        exact min_le_right _ _
      simp only [HostMemory.update_isSome (moveRows_sameOutside hspace),
        RawMemory.moveRows_isSome hmin hdst, Option.some.injEq, forall_eq']

theorem copyFrameBuffer_scribbled (hptr : m.getPointer saveArea = some (m.vram + offset))
    (hspace : offset + dstStride.toNat * lines ≤ vramSize)
    (h : m.copyFrameBuffer saveArea src dstStride srcStride lines = some m') : m.Scribbled m' := by
  rw [HostMemory.copyFrameBuffer, hptr] at h
  cases hsrc : m.getPointer src with
  | none =>
      rw [hsrc] at h
      cases h
      exact .refl
  | some srcPtr =>
      rw [hsrc] at h
      exact HostMemory.update_scribbled (moveRows_sameOutside hspace) h

theorem clearFramebuffer_isSome (hptr : m.getPointer saveArea = some (m.vram + offset))
    (hspace : offset + dstStride.toNat * lines ≤ vramSize) :
    (m.clearFramebuffer saveArea dstStride lines).isSome := by
  simp only [HostMemory.clearFramebuffer, hptr,
    HostMemory.update_isSome (fillRows_sameOutside hspace)]
  exact RawMemory.fillRows_isSome (m.allocated.sub (Nat.le_add_right _ _) (by omega))

theorem clearFramebuffer_scribbled (hptr : m.getPointer saveArea = some (m.vram + offset))
    (hspace : offset + dstStride.toNat * lines ≤ vramSize)
    (h : m.clearFramebuffer saveArea dstStride lines = some m') : m.Scribbled m' := by
  rw [HostMemory.clearFramebuffer, hptr] at h
  exact HostMemory.update_scribbled (fillRows_sameOutside hspace) h

end Lines

section Area

variable (hptr : m.getPointer saveArea = some (m.vram + offset))
  (hroom : offset + 960 * lines ≤ vramSize) (hbytes : bytesPerPixel.toNat ≤ 4)

include hptr hroom hbytes in
theorem capture_isSome :
    (capture m saveArea address stride bytesPerPixel lines).isSome ↔
      m.Capturable address stride bytesPerPixel lines := by
  have hspace := lines_le (toNat_width hbytes) hroom
  rw [capture]
  split
  · next hvalid =>
      rw [copyFrameBuffer_isSome hptr hspace]
      exact ⟨fun h _ _ _ => h, fun h => h hvalid.1 hvalid.2.1 hvalid.2.2⟩
  · next hinvalid =>
      refine iff_of_true (clearFramebuffer_isSome hptr hspace) fun haddress hzero hfour => ?_
      exact absurd ⟨haddress, hzero, hfour⟩ hinvalid

include hptr hroom hbytes in
theorem capture_scribbled (h : capture m saveArea address stride bytesPerPixel lines = some m') :
    m.Scribbled m' := by
  have hspace := lines_le (toNat_width hbytes) hroom
  rw [capture] at h
  split at h
  · exact copyFrameBuffer_scribbled hptr hspace h
  · exact clearFramebuffer_scribbled hptr hspace h

end Area

theorem getPointer_topLeft (m : HostMemory) :
    m.getPointer framebufferSaveAreaTopLeft = some (m.vram + 0x273000) :=
  m.mapped 0x273000 (by decide)

theorem getPointer_topRight (m : HostMemory) :
    m.getPointer framebufferSaveAreaTopRight = some (m.vram + 0x2B9800) :=
  m.mapped 0x2B9800 (by decide)

theorem getPointer_bottom (m : HostMemory) :
    m.getPointer framebufferSaveAreaBottom = some (m.vram + 0x4C7800) :=
  m.mapped 0x4C7800 (by decide)

/-- The framebuffers that are captured lie in memory. -/
structure Captured (m : HostMemory) (top bottom : FrameBufferInfo) : Prop where
  topLeft : m.Capturable top.addressLeft top.stride top.bytesPerPixel topFramebufferHeight
  topRight : m.Capturable top.addressRight top.stride top.bytesPerPixel topFramebufferHeight
  bottom : m.Capturable bottom.addressLeft bottom.stride bottom.bytesPerPixel
    bottomFramebufferHeight

variable {top bottom : FrameBufferInfo}

theorem captureAll_eq_some :
    captureAll m top bottom = some m' ↔ ∃ m₁ m₂,
      capture m framebufferSaveAreaTopLeft top.addressLeft top.stride top.bytesPerPixel
        topFramebufferHeight = some m₁ ∧
      capture m₁ framebufferSaveAreaTopRight top.addressRight top.stride top.bytesPerPixel
        topFramebufferHeight = some m₂ ∧
      capture m₂ framebufferSaveAreaBottom bottom.addressLeft bottom.stride bottom.bytesPerPixel
        bottomFramebufferHeight = some m' := by
  simp only [captureAll, Option.bind_eq_some_iff, exists_and_left]

theorem scribbled_topLeft {address stride : UInt32}
    (h : capture m framebufferSaveAreaTopLeft address stride top.bytesPerPixel
      topFramebufferHeight = some m') : m.Scribbled m' :=
  capture_scribbled (getPointer_topLeft m) (by decide) (toNat_bytesPerPixel_le top) h

theorem scribbled_topRight {address stride : UInt32}
    (h : capture m framebufferSaveAreaTopRight address stride top.bytesPerPixel
      topFramebufferHeight = some m') : m.Scribbled m' :=
  capture_scribbled (getPointer_topRight m) (by decide) (toNat_bytesPerPixel_le top) h

theorem scribbled_bottom {address stride : UInt32}
    (h : capture m framebufferSaveAreaBottom address stride bottom.bytesPerPixel
      bottomFramebufferHeight = some m') : m.Scribbled m' :=
  capture_scribbled (getPointer_bottom m) (by decide) (toNat_bytesPerPixel_le bottom) h

theorem captureAll_scribbled (h : captureAll m top bottom = some m') : m.Scribbled m' := by
  obtain ⟨m₁, m₂, hleft, hright, hbottom⟩ := captureAll_eq_some.mp h
  exact ((scribbled_topLeft hleft).trans (scribbled_topRight hright)).trans
    (scribbled_bottom hbottom)

/-- Saving ends if the framebuffers lie in memory. -/
theorem captureAll_isSome : (captureAll m top bottom).isSome ↔ Captured m top bottom := by
  have htop (m : HostMemory) (address : UInt32) :=
    @capture_isSome m _ address top.stride _ _ _ (getPointer_topLeft m)
      (by decide : _ + 960 * topFramebufferHeight ≤ _) (toNat_bytesPerPixel_le top)
  have hright (m : HostMemory) (address : UInt32) :=
    @capture_isSome m _ address top.stride _ _ _ (getPointer_topRight m)
      (by decide : _ + 960 * topFramebufferHeight ≤ _) (toNat_bytesPerPixel_le top)
  have hbottom (m : HostMemory) (address : UInt32) :=
    @capture_isSome m _ address bottom.stride _ _ _ (getPointer_bottom m)
      (by decide : _ + 960 * bottomFramebufferHeight ≤ _) (toNat_bytesPerPixel_le bottom)
  constructor
  · intro h
    obtain ⟨m', hall⟩ := Option.isSome_iff_exists.mp h
    obtain ⟨m₁, m₂, h₁, h₂, h₃⟩ := captureAll_eq_some.mp hall
    have hsame₁ := scribbled_topLeft h₁
    have hsame₂ := hsame₁.trans (scribbled_topRight h₂)
    exact ⟨(htop m _).mp (Option.isSome_of_eq_some h₁),
      (hsame₁.capturable_iff _ _ _ _).mp ((hright m₁ _).mp (Option.isSome_of_eq_some h₂)),
      (hsame₂.capturable_iff _ _ _ _).mp ((hbottom m₂ _).mp (Option.isSome_of_eq_some h₃))⟩
  · intro h
    obtain ⟨m₁, h₁⟩ := Option.isSome_iff_exists.mp ((htop m _).mpr h.topLeft)
    have hsame₁ := scribbled_topLeft h₁
    obtain ⟨m₂, h₂⟩ := Option.isSome_iff_exists.mp
      ((hright m₁ _).mpr ((hsame₁.capturable_iff _ _ _ _).mpr h.topRight))
    have hsame₂ := hsame₁.trans (scribbled_topRight h₂)
    obtain ⟨m₃, h₃⟩ := Option.isSome_iff_exists.mp
      ((hbottom m₂ _).mpr ((hsame₂.capturable_iff _ _ _ _).mpr h.bottom))
    exact Option.isSome_of_eq_some (captureAll_eq_some.mpr ⟨m₁, m₂, h₁, h₂, h₃⟩)

end Capture

/-! ## Saving and restoring -/

variable {g : GspGpuVram} {thread : Fin 4}

theorem restored_saved {m m' : HostMemory} (h : m.Scribbled m') :
    m'.restored m.saved = m.bytes := by
  funext a
  rw [HostMemory.restored, h.vram]
  split
  · next hin =>
      have hplace : m.vram + (a - m.vram) = a := by omega
      have hthere := m.allocated (a - m.vram) (by omega)
      rw [HostMemory.saved, HostMemory.vramBytes]
      rw [hplace] at hthere ⊢
      obtain ⟨x, hx⟩ := Option.isSome_iff_exists.mp hthere
      rw [hx, Option.getD_some]
  · exact h.bytes.outside a (by omega)

/-- The addresses that registers hold. -/
abbrev toPhysical (g : GspGpuVram) : UInt32 → UInt32 :=
  virtualToPhysicalAddress g.plugin3GXFramebufferAddress

theorem exists_save (hactive : g.activeThreadId = some thread)
    (hcaptured : Captured g.memory (g.chosen thread .top) (g.chosen thread .bottom)) :
    ∃ g', g.saveVramSysArea = some (0, g') := by
  obtain ⟨m, hcapture⟩ := Option.isSome_iff_exists.mp (captureAll_isSome.mpr hcaptured)
  simp only [saveVramSysArea, hactive, hcapture, Option.map_some]
  exact ⟨_, rfl⟩

/-- What is there after VRAM was saved and restored. -/
theorem restore_save {code : UInt32} {g' : GspGpuVram} (hactive : g.activeThreadId = some thread)
    (hsave : g.saveVramSysArea = some (code, g')) :
    ∃ g'', g'.restoreVramSysArea = some (0, g'') ∧ g''.memory.bytes = g.memory.bytes ∧
      g''.memory.vram = g.memory.vram ∧
      g''.framebufferConfig .top =
        ((g.framebufferConfig .top).setBufferSwap g.toPhysical
          (topCapture (g.chosen thread .top))).setBufferSwap g.toPhysical (g.chosen thread .top) ∧
      g''.framebufferConfig .bottom =
        ((g.framebufferConfig .bottom).setBufferSwap g.toPhysical
          (bottomCapture (g.chosen thread .bottom))).setBufferSwap g.toPhysical
            ((g.frameBufferInfo thread .bottom).framebufferInfo
              (g.frameBufferInfo thread .top).index) := by
  simp only [saveVramSysArea, hactive] at hsave
  obtain ⟨m, hcapture, heq⟩ := Option.map_eq_some_iff.mp hsave
  have hsame := captureAll_scribbled hcapture
  cases heq
  refine ⟨_, by simp only [restoreVramSysArea, setBufferSwap]; rfl, ?_, ?_, ?_, ?_⟩
  · exact restored_saved hsame
  · exact hsame.vram
  · rfl
  · rfl

/-- The registers of a screen that was swapped to a framebuffer. -/
def IsSwappedTo (toPhysical : UInt32 → UInt32) (info : FrameBufferInfo)
    (framebuffer : FramebufferConfig) : Prop :=
  framebuffer.setBufferSwap toPhysical info = framebuffer

theorem isSwappedTo_setBufferSwap (toPhysical : UInt32 → UInt32) (framebuffer : FramebufferConfig)
    (info : FrameBufferInfo) :
    IsSwappedTo toPhysical info (framebuffer.setBufferSwap toPhysical info) := by
  rw [IsSwappedTo, FramebufferConfig.setBufferSwap, FramebufferConfig.setBufferSwap]
  split <;> rfl

/-- A framebuffer that looks like another one to the registers, after the capture of the other one
was shown. -/
def Passes (toPhysical : UInt32 → UInt32) (own other : FrameBufferInfo) : Prop :=
  other.stride = own.stride ∧ other.format = own.format ∧ other.shownFb = own.shownFb ∧
    if other.activeFb = 0 ↔ own.activeFb = 0 then
      toPhysical other.addressLeft = toPhysical own.addressLeft ∧
        toPhysical other.addressRight = toPhysical own.addressRight
    else toPhysical framebufferSaveAreaBottom = toPhysical own.addressLeft

theorem passes_self (toPhysical : UInt32 → UInt32) (own : FrameBufferInfo) :
    Passes toPhysical own own :=
  ⟨rfl, rfl, rfl, by rw [if_pos Iff.rfl]; exact ⟨rfl, rfl⟩⟩

theorem isSwappedTo_iff (toPhysical : UInt32 → UInt32) (framebuffer : FramebufferConfig)
    (own other : FrameBufferInfo) :
    IsSwappedTo toPhysical own ((framebuffer.setBufferSwap toPhysical (bottomCapture own)).setBufferSwap
      toPhysical other) ↔ Passes toPhysical own other := by
  by_cases hown : own.activeFb = 0 <;> by_cases hother : other.activeFb = 0 <;>
    simp only [IsSwappedTo, Passes, FramebufferConfig.setBufferSwap, bottomCapture, hown, hother,
      if_true, if_false, FramebufferConfig.ext_iff, true_and, and_true, iff_true, iff_false,
      not_true_eq_false]
  all_goals grind

/-- VRAM is as it was, and each screen shows the framebuffer that it has chosen. -/
structure Restored (g : GspGpuVram) (thread : Fin 4) (g'' : GspGpuVram) : Prop where
  vram : ∀ i < vramSize, g''.memory.vramBytes i = g.memory.vramBytes i
  swapped : ∀ screen, IsSwappedTo g.toPhysical (g.chosen thread screen)
    (g''.framebufferConfig screen)

/-- What the top screen has chosen is also taken for the bottom screen, which is right if the
framebuffer looks like its own one; and the captures have to lie in memory. -/
theorem restore_save_iff (hactive : g.activeThreadId = some thread) :
    (∃ g' g'', g.saveVramSysArea = some (0, g') ∧ g'.restoreVramSysArea = some (0, g'') ∧
        g.Restored thread g'') ↔
      Captured g.memory (g.chosen thread .top) (g.chosen thread .bottom) ∧
        Passes g.toPhysical (g.chosen thread .bottom)
          ((g.frameBufferInfo thread .bottom).framebufferInfo
            (g.frameBufferInfo thread .top).index) := by
  constructor
  · rintro ⟨g', g'', hsave, hrestore, hrestored⟩
    constructor
    · rw [← captureAll_isSome]
      simp only [saveVramSysArea, hactive] at hsave
      obtain ⟨m, hcapture, _⟩ := Option.map_eq_some_iff.mp hsave
      exact Option.isSome_of_eq_some hcapture
    · obtain ⟨after, hafter, _, _, _, hbottom⟩ := restore_save hactive hsave
      cases hafter.symm.trans hrestore
      have hswapped := hrestored.swapped .bottom
      rwa [hbottom, isSwappedTo_iff] at hswapped
  · rintro ⟨hcaptured, hpasses⟩
    obtain ⟨g', hsave⟩ := exists_save hactive hcaptured
    obtain ⟨g'', hrestore, hbytes, hvram, htop, hbottom⟩ := restore_save hactive hsave
    refine ⟨g', g'', hsave, hrestore, fun i _ => ?_, fun screen => ?_⟩
    · rw [HostMemory.vramBytes, HostMemory.vramBytes, hbytes, hvram]
    · cases screen with
      | top =>
          rw [htop]
          exact isSwappedTo_setBufferSwap _ _ _
      | bottom =>
          rw [hbottom]
          exact (isSwappedTo_iff _ _ _ _).mpr hpasses

/-- Memory in which nothing but VRAM is mapped, filled with zeros. -/
def vramOnly : HostMemory where
  bytes := fun a => if a < vramSize then some 0 else none
  getPointer := fun addr =>
    if vramVaddr ≤ addr ∧ addr < vramVaddrEnd then some (addr - vramVaddr).toNat else none
  vram := 0
  mapped := by
    intro i hi
    have hsmall : i < 0x600000 := hi
    have hbase : vramVaddr.toNat = 0x1F000000 := rfl
    have hend : vramVaddrEnd.toNat = 0x1F600000 := rfl
    have hplace : (vramVaddr + UInt32.ofNat i).toNat = 0x1F000000 + i := by
      rw [UInt32.toNat_add, UInt32.toNat_ofNat', hbase]
      omega
    have hlow : vramVaddr ≤ vramVaddr + UInt32.ofNat i := by
      rw [UInt32.le_iff_toNat_le, hplace, hbase]
      omega
    rw [if_pos, UInt32.toNat_sub_of_le _ _ hlow, hplace, hbase]
    · rw [Nat.add_sub_cancel_left, Nat.zero_add]
    · rw [UInt32.lt_iff_toNat_lt, hplace, hend]
      exact ⟨hlow, by omega⟩
  allocated := by
    intro i hi
    beta_reduce
    rw [Nat.zero_add, if_pos hi, Option.isSome_some]

/-- A framebuffer without an address. -/
def blank (stride : UInt32) : FrameBufferInfo := ⟨0, 0, 0, stride, 0, 0⟩

/-- A state whose screens have chosen the given framebuffers. -/
def blankScreens (top bottom : Bool) : GspGpuVram where
  activeThreadId := some ⟨0, Nat.zero_lt_succ 3⟩
  frameBufferInfo := fun _ screen =>
    { index := if screen = .top then top else bottom
      framebufferInfo := fun second => blank (if second then 720 else 480) }
  memory := vramOnly
  plugin3GXFramebufferAddress := 0
  framebufferConfig := fun _ => ⟨0, 0, 0, 0, 0, 0, 0⟩

theorem captured_blank (m : HostMemory) (s t : UInt32) : Captured m (blank s) (blank t) :=
  ⟨fun h => absurd rfl h, fun h => absurd rfl h, fun h => absurd rfl h⟩

/-- Both screens have chosen the second framebuffer. -/
theorem restore_save_blankScreens : ∃ g' g'',
    (blankScreens true true).saveVramSysArea = some (0, g') ∧
      g'.restoreVramSysArea = some (0, g'') ∧ (blankScreens true true).Restored 0 g'' :=
  (restore_save_iff rfl).mpr ⟨captured_blank _ _ _, passes_self _ _⟩

/-- The top screen has chosen the first framebuffer and the bottom screen the second one. -/
theorem restore_otherIndex : ∃ g' g'',
    (blankScreens false true).saveVramSysArea = some (0, g') ∧
      g'.restoreVramSysArea = some (0, g'') ∧ ¬ (blankScreens false true).Restored 0 g'' := by
  have hactive : (blankScreens false true).activeThreadId = some 0 := rfl
  obtain ⟨g', hsave⟩ := exists_save hactive (captured_blank _ _ _)
  obtain ⟨g'', hrestore, _, _, _, hbottom⟩ := restore_save hactive hsave
  refine ⟨g', g'', hsave, hrestore, fun hrestored => ?_⟩
  have hswapped := hrestored.swapped .bottom
  rw [hbottom, isSwappedTo_iff] at hswapped
  exact absurd hswapped.1 (by decide)

end GspGpuVram

end Cytrus.Gsp
