import Cytrus.Ldr.CroImage
import Cytrus.Support.Walks

/-!
# The tree of exported names

A name is looked up by a walk through a tree whose entries each test one bit of
it, where a bit behind the name is zero. The export at the end of the walk is
compared with the name. The entries of an accepted tree lie in it, but nothing
keeps a walk from coming back to an entry.

## Main results

* `terminates_iff`: when a name is looked up at all
* `findExportNamedSymbol_eq`: what is found in a tree over the exported names
* `findExportNamedSymbol_iff`: both hold if and only if no walk comes back
-/

namespace Cytrus.Ldr

open Support

/-! ### Bits of names -/

/-- The bit of a name that an entry tests. -/
def nameBit (name : Name) (testBit : UInt16) : Bool :=
  match name[(testBit >>> 3).toNat]? with
  | none => false
  | some byte => (byte >>> (testBit &&& 7).toUInt8) &&& 1 = 1

/-- The child for a bit. -/
def ExportTreeEntry.pick (entry : ExportTreeEntry) (bit : Bool) : UInt16 :=
  if bit then entry.right else entry.left

theorem ExportTreeEntry.child_eq (entry : ExportTreeEntry) (name : Name) :
    entry.child name = entry.pick (nameBit name entry.testBit) := by
  cases hbyte : name[(entry.testBit >>> 3).toNat]? with
  | none =>
      simp only [ExportTreeEntry.child, ExportTreeEntry.pick, nameBit, hbyte, Bool.false_eq_true,
        if_false]
  | some byte =>
      simp only [ExportTreeEntry.child, ExportTreeEntry.pick, nameBit, hbyte, decide_eq_true_eq]

/-- The byte with the given bits. -/
def byteOfBits (bits : Fin 8 → Bool) : UInt8 := UInt8.ofNat (Nat.ofBits bits)

/-- A name that has all bits that an entry can test. -/
def nameOfBits (bits : UInt16 → Bool) : Name :=
  (List.range 8192).map fun i => byteOfBits fun j => bits (UInt16.ofNat (8 * i + j))

theorem byteOfBits_bit (bits : Fin 8 → Bool) (j : Nat) (hj : j < 8) :
    ((byteOfBits bits >>> UInt8.ofNat j) &&& 1 = 1) ↔ bits ⟨j, hj⟩ = true := by
  have hsmall : Nat.ofBits bits < 2 ^ 8 := Nat.ofBits_lt_two_pow bits
  have hbyte : (byteOfBits bits).toNat = Nat.ofBits bits := by
    rw [byteOfBits, UInt8.toNat_ofNat', Nat.mod_eq_of_lt hsmall]
  have hplace : (UInt8.ofNat j).toNat % 8 = j := by
    rw [UInt8.toNat_ofNat']
    omega
  rw [← Nat.testBit_ofBits_lt bits j hj, ← UInt8.toNat_inj, UInt8.toNat_and, UInt8.toNat_shiftRight,
    hbyte, hplace, Nat.testBit_eq_decide_div_mod_eq, decide_eq_true_eq, Nat.shiftRight_eq_div_pow]
  exact Eq.congr_left (Nat.and_one_is_mod _)

theorem nameBit_nameOfBits (bits : UInt16 → Bool) (testBit : UInt16) :
    nameBit (nameOfBits bits) testBit = bits testBit := by
  have hbyte : (testBit >>> 3).toNat = testBit.toNat / 8 := by
    rw [UInt16.toNat_shiftRight, Nat.shiftRight_eq_div_pow]
    rfl
  have hplace : (testBit &&& 7).toUInt8 = UInt8.ofNat (testBit.toNat % 8) := by
    apply UInt8.toNat_inj.mp
    rw [UInt16.toNat_toUInt8, UInt16.toNat_and, UInt8.toNat_ofNat']
    congr 1
    exact Nat.and_two_pow_sub_one_eq_mod testBit.toNat 3
  have hlt := testBit.toNat_lt
  have hthere : (nameOfBits bits)[testBit.toNat / 8]? =
      some (byteOfBits fun j => bits (UInt16.ofNat (8 * (testBit.toNat / 8) + j))) := by
    rw [nameOfBits, List.getElem?_map, List.getElem?_range (by omega)]
    rfl
  have hsame : UInt16.ofNat (8 * (testBit.toNat / 8) + testBit.toNat % 8) = testBit := by
    rw [Nat.div_add_mod, UInt16.ofNat_toNat]
  rw [nameBit, hbyte, hthere, hplace]
  simp only [byteOfBits_bit _ _ (Nat.mod_lt testBit.toNat (by decide : 0 < 8)), hsame,
    Bool.decide_eq_true]

/-! ### Walks through the tree -/

/-- The child that follows on one that is not an end. -/
def nextChild (tree : List ExportTreeEntry) (bits : UInt16 → Bool) (child : UInt16) :
    Option UInt16 :=
  if child >>> 15 = 1 then none
  else tree[(child &&& 0x7FFF).toNat]?.map fun entry => entry.pick (bits entry.testBit)

/-- What `VerifyExportTreeTable` accepts. -/
def IsAcceptedTree (tree : List ExportTreeEntry) : Prop :=
  ∀ entry ∈ tree, (entry.left &&& 0x7FFF).toNat < tree.length ∧
    (entry.right &&& 0x7FFF).toNat < tree.length

/-- Whatever the bits of a name are, its walk does not come back to a child. -/
def IsLoopFree (tree : List ExportTreeEntry) : Prop :=
  ∀ root ∈ tree.head?, ∀ bits, ¬ ComesBack (nextChild tree bits) root.left

section Search

variable {tree : List ExportTreeEntry} {name : Name} {child : UInt16}

theorem IsAcceptedTree.exists_entry (h : IsAcceptedTree tree)
    (hchild : (child &&& 0x7FFF).toNat < tree.length) (bits : UInt16 → Bool) :
    ∃ entry, tree[(child &&& 0x7FFF).toNat]? = some entry ∧
      (entry.pick (bits entry.testBit) &&& 0x7FFF).toNat < tree.length := by
  refine ⟨_, List.getElem?_eq_getElem hchild, ?_⟩
  have hentry := h _ (List.getElem_mem hchild)
  rw [ExportTreeEntry.pick]
  split
  · exact hentry.2
  · exact hentry.1

theorem searchTree_of_walk_eq_none (h : IsAcceptedTree tree) {n : Nat}
    (hchild : (child &&& 0x7FFF).toNat < tree.length)
    (hwalk : placeAfter (nextChild tree (nameBit name)) child n = none) :
    ∃ foundId, searchTree tree name n child = .ok foundId := by
  induction n generalizing child with
  | zero => exact absurd hwalk (Option.some_ne_none child)
  | succ n ih =>
      obtain ⟨entry, hentry, hnext⟩ := h.exists_entry hchild (nameBit name)
      by_cases hend : child >>> 15 = 1
      · exact ⟨entry.exportTableIndex, by simp only [searchTree, hentry, if_pos hend]⟩
      · rw [placeAfter_succ, nextChild, if_neg hend, hentry, Option.map_some, Option.bind_some] at hwalk
        obtain ⟨foundId, hfound⟩ := ih hnext hwalk
        refine ⟨foundId, ?_⟩
        simp only [searchTree, hentry, if_neg hend, ExportTreeEntry.child_eq, hfound]

theorem searchTree_eq_endless (h : IsAcceptedTree tree)
    (hchild : (child &&& 0x7FFF).toNat < tree.length)
    (hwalk : ¬ Ends (nextChild tree (nameBit name)) child) (n : Nat) :
    searchTree tree name n child = .error .endless := by
  induction n generalizing child with
  | zero => rfl
  | succ n ih =>
      obtain ⟨entry, hentry, hnext⟩ := h.exists_entry hchild (nameBit name)
      by_cases hend : child >>> 15 = 1
      · refine absurd ⟨1, ?_⟩ hwalk
        rw [placeAfter_succ, nextChild, if_pos hend, Option.bind_none]
      · simp only [searchTree, hentry, if_neg hend, ExportTreeEntry.child_eq]
        refine ih hnext fun ⟨k, hk⟩ => hwalk ⟨k + 1, ?_⟩
        rw [placeAfter_succ, nextChild, if_neg hend, hentry, Option.map_some, Option.bind_some, hk]

theorem searchTree_of_walk_eq_some {last : UInt16} {entry : ExportTreeEntry} {n fuel : Nat}
    (hwalk : placeAfter (nextChild tree (nameBit name)) child n = some last) (hlast : last >>> 15 = 1)
    (hentry : tree[(last &&& 0x7FFF).toNat]? = some entry) (hfuel : n < fuel) :
    searchTree tree name fuel child = .ok entry.exportTableIndex := by
  induction n generalizing child fuel with
  | zero =>
      cases Option.some.inj hwalk
      obtain ⟨fuel, rfl⟩ := Nat.exists_eq_add_of_lt hfuel
      simp only [searchTree, hentry, if_pos hlast]
  | succ n ih =>
      obtain ⟨fuel, rfl⟩ := Nat.exists_eq_succ_of_ne_zero (Nat.ne_of_gt (Nat.zero_lt_of_lt hfuel))
      obtain ⟨next, hnext, hrest⟩ := Option.bind_eq_some_iff.mp ((placeAfter_succ n).symm.trans hwalk)
      rw [nextChild] at hnext
      split at hnext
      · cases hnext
      · next hend =>
          obtain ⟨passed, hpassed, rfl⟩ := Option.map_eq_some_iff.mp hnext
          simp only [searchTree, hpassed, if_neg hend, ExportTreeEntry.child_eq]
          exact ih hrest (Nat.lt_of_succ_lt_succ hfuel)

end Search

/-! ## Looking a name up -/

def exportName (text : Strings) (h : Header) (e : ExportNamedSymbolEntry) : Name :=
  readCString text e.nameOffset (h.size .ExportStrings)

/-- The address of the export with a name, or zero where there is none. -/
def exportAddress (text : Strings) (h : Header) (t : Tables) (name : Name) : VAddr :=
  match t.exportNamed.find? fun e => exportName text h e = name with
  | none => 0
  | some e => t.segmentTagToAddress e.symbolPosition

/-- The tree is a crit-bit tree over the exported names: the walk of each name ends at its own
export. -/
def IsCritBitTree (text : Strings) (h : Header) (t : Tables) : Prop :=
  ∀ i e, t.exportNamed[i]? = some e → ∃ root ∈ t.exportTree.head?, ∃ n last entry,
    placeAfter (nextChild t.exportTree (nameBit (exportName text h e))) root.left n = some last ∧
      last >>> 15 = 1 ∧ t.exportTree[(last &&& 0x7FFF).toNat]? = some entry ∧
      entry.exportTableIndex.toNat = i

section Find

variable {text : Strings} {h : Header} {t : Tables}

theorem isLoopFree_iff {tree : List ExportTreeEntry} :
    IsLoopFree tree ↔ ∀ root ∈ tree.head?, ∀ name,
      ¬ ComesBack (nextChild tree (nameBit name)) root.left := by
  refine forall₂_congr fun root _ => ⟨fun hfree name => hfree _, fun hfree bits => ?_⟩
  have hbits : nameBit (nameOfBits bits) = bits := funext fun _ => nameBit_nameOfBits bits _
  have hname := hfree (nameOfBits bits)
  rwa [hbits] at hname

theorem placeAfter_children {tree : List ExportTreeEntry} {bits : UInt16 → Bool} {child : UInt16}
    (hfree : ¬ ComesBack (nextChild tree bits) child) :
    placeAfter (nextChild tree bits) child 65536 = none :=
  placeAfter_eq_none (fun c : UInt16 => ⟨c.toNat, c.toNat_lt⟩)
    (fun _ _ heq => UInt16.toNat_inj.mp (Fin.mk.inj heq)) hfree

theorem IsAcceptedTree.left_lt {tree : List ExportTreeEntry} (h : IsAcceptedTree tree)
    {root : ExportTreeEntry} (hroot : root ∈ tree.head?) :
    (root.left &&& 0x7FFF).toNat < tree.length :=
  (h root (List.mem_of_mem_head? hroot)).1

/-- What is returned for the export that a search has found. -/
def foundAddress (text : Strings) (h : Header) (t : Tables) (name : Name) (foundId : UInt16) :
    VAddr :=
  match t.exportNamed[foundId.toNat]? with
  | none => 0
  | some e => if exportName text h e ≠ name then 0 else t.segmentTagToAddress e.symbolPosition

variable {name : Name} {root : ExportTreeEntry}

theorem find_of_search {foundId : UInt16} (hroot : root ∈ t.exportTree.head?)
    (hsearch : searchTree t.exportTree name 0x10001 root.left = .ok foundId) :
    findExportNamedSymbol text h t name = .ok (foundAddress text h t name foundId) := by
  obtain ⟨rest, htree⟩ := List.head?_eq_some_iff.mp hroot
  rw [findExportNamedSymbol, foundAddress]
  simp only [htree] at hsearch ⊢
  rw [hsearch]
  cases hfound : t.exportNamed[foundId.toNat]? with
  | none => simp only [bind, Except.bind, hfound]
  | some e =>
      simp only [bind, Except.bind, hfound]
      exact (apply_ite Except.ok (exportName text h e ≠ name) 0 _).symm

theorem find_of_error {fault : LoaderFault} (hroot : root ∈ t.exportTree.head?)
    (hsearch : searchTree t.exportTree name 0x10001 root.left = .error fault) :
    findExportNamedSymbol text h t name = .error fault := by
  obtain ⟨rest, htree⟩ := List.head?_eq_some_iff.mp hroot
  rw [findExportNamedSymbol]
  simp only [htree] at hsearch ⊢
  rw [hsearch]
  rfl

theorem find_of_empty (hroot : t.exportTree.head? = none) :
    findExportNamedSymbol text h t name = .ok 0 := by
  rw [findExportNamedSymbol, List.head?_eq_none_iff.mp hroot]

theorem exists_search (haccepted : IsAcceptedTree t.exportTree) (hroot : root ∈ t.exportTree.head?)
    (hfree : ¬ ComesBack (nextChild t.exportTree (nameBit name)) root.left) :
    ∃ foundId, searchTree t.exportTree name 0x10001 root.left = .ok foundId :=
  searchTree_of_walk_eq_none haccepted (haccepted.left_lt hroot)
    (placeAfter_eq_none_of_le (by decide) (placeAfter_children hfree))

/-- A name is looked up to the end if and only if its walk does not come back. -/
theorem terminates_iff (haccepted : IsAcceptedTree t.exportTree) (name : Name) :
    (∃ a, findExportNamedSymbol text h t name = .ok a) ↔ ∀ root ∈ t.exportTree.head?,
      ¬ ComesBack (nextChild t.exportTree (nameBit name)) root.left := by
  constructor
  · rintro ⟨a, hfind⟩ root hroot hback
    have hendless := searchTree_eq_endless haccepted (haccepted.left_lt hroot) hback.not_ends 0x10001
    rw [find_of_error hroot hendless] at hfind
    cases hfind
  · intro hfree
    cases hroot : t.exportTree.head? with
    | none => exact ⟨0, find_of_empty hroot⟩
    | some root =>
        obtain ⟨foundId, hsearch⟩ := exists_search haccepted hroot (hfree root hroot)
        exact ⟨_, find_of_search hroot hsearch⟩

theorem IsCritBitTree.search (htree : IsCritBitTree text h t) (hfree : IsLoopFree t.exportTree)
    (hroot : root ∈ t.exportTree.head?) {i : Nat} {e : ExportNamedSymbolEntry}
    (he : t.exportNamed[i]? = some e) :
    ∃ foundId, searchTree t.exportTree (exportName text h e) 0x10001 root.left = .ok foundId ∧
      foundId.toNat = i := by
  obtain ⟨root', hroot', n, last, entry, hwalk, hlast, hentry, hindex⟩ := htree i e he
  cases Option.mem_unique hroot hroot'
  have hfuel : n < 0x10001 := by
    by_contra hlate
    have hover := placeAfter_eq_none_of_le (by omega : 65536 ≤ n)
      (placeAfter_children (hfree root hroot (nameBit (exportName text h e))))
    exact absurd (hover.symm.trans hwalk) (Option.some_ne_none last).symm
  exact ⟨_, searchTree_of_walk_eq_some hwalk hlast hentry hfuel, hindex⟩

/-- What is found in a crit-bit tree over the exported names. -/
theorem findExportNamedSymbol_eq (haccepted : IsAcceptedTree t.exportTree)
    (hfree : IsLoopFree t.exportTree) (htree : IsCritBitTree text h t) (name : Name) :
    findExportNamedSymbol text h t name = .ok (exportAddress text h t name) := by
  cases hroot : t.exportTree.head? with
  | none =>
      have hempty : t.exportNamed = [] := by
        cases hexports : t.exportNamed with
        | nil => rfl
        | cons e rest =>
            obtain ⟨root, hsome, _⟩ := htree 0 e (by rw [hexports, List.getElem?_cons_zero])
            rw [hroot] at hsome
            cases hsome
      rw [find_of_empty hroot, exportAddress, hempty]
      rfl
  | some root =>
      obtain ⟨foundId, hsearch⟩ := exists_search haccepted hroot (hfree root hroot (nameBit name))
      rw [find_of_search hroot hsearch, foundAddress, exportAddress]
      cases hfind : t.exportNamed.find? fun e => exportName text h e = name with
      | none =>
          -- the export at the end of the walk has another name
          cases hfound : t.exportNamed[foundId.toNat]? with
          | none => rfl
          | some e =>
              have hother := List.find?_eq_none.mp hfind e (List.mem_of_getElem? hfound)
              simp only [decide_eq_true_eq] at hother
              exact congrArg Except.ok (if_pos hother)
      | some e =>
          -- the walk of the name ends at its export
          have hname : exportName text h e = name := by simpa using List.find?_some hfind
          obtain ⟨i, hi⟩ := List.getElem?_of_mem (List.mem_of_find?_eq_some hfind)
          obtain ⟨ownId, hown, hindex⟩ := htree.search hfree hroot hi
          rw [hname] at hown
          cases Except.ok.inj (hsearch.symm.trans hown)
          rw [hindex, hi]
          exact congrArg Except.ok (if_neg (not_not.mpr hname))

end Find

/-- For a tree that is accepted, every name is looked up to the end, and found where the tree is a
crit-bit tree over the exported names, if and only if no walk through the tree comes back. -/
theorem findExportNamedSymbol_iff (text : Strings) (self : VAddr) (s : LoaderState)
    (hverify : verifyExportTreeTable self s = .value () s) :
    ((∀ name, ∃ a, findExportNamedSymbol text (s.header self) (s.tables self) name = .ok a) ∧
        (IsCritBitTree text (s.header self) (s.tables self) → ∀ name,
          findExportNamedSymbol text (s.header self) (s.tables self) name =
            .ok (exportAddress text (s.header self) (s.tables self) name))) ↔
      IsLoopFree (s.tables self).exportTree := by
  have haccepted : IsAcceptedTree (s.tables self).exportTree := by
    simp only [verifyExportTreeTable, Exec.get_bind, Exec.require_eq_value] at hverify
    exact hverify.1
  rw [isLoopFree_iff]
  constructor
  · intro hboth root hroot name
    exact (terminates_iff haccepted name).mp (hboth.1 name) root hroot
  · intro hfree
    refine ⟨fun name => (terminates_iff haccepted name).mpr fun root hroot => hfree root hroot name,
      fun htree name => findExportNamedSymbol_eq haccepted (isLoopFree_iff.mpr hfree) htree name⟩

/-- A module with one segment that exports the name `a`, and the entry of its tree. -/
def exportA (entry : ExportTreeEntry) : LoaderState where
  links := fun _ => 0
  header := fun _ => ⟨magicCRO0, 0, 0, 0, 0, 0, fun _ => 0, fun _ => 2⟩
  tables := fun _ =>
    { segments := [⟨0x1000, 0x100, .Code⟩]
      exportNamed := [⟨0x500, 0x40⟩]
      exportTree := [entry] }
  resolved := fun _ _ => false
  staticResolved := fun _ _ => false
  words := fun _ => 0

/-- The strings of memory, where every name is `a`. -/
def nameA : Strings := fun _ => [0x61]

/-- The only child is an end. -/
theorem isLoopFree_leaf : IsLoopFree [⟨0, 0x8000, 0x8000, 0⟩] := by
  intro root hroot bits hback
  cases Option.some.inj hroot
  exact hback.not_ends ⟨1, rfl⟩

theorem findExportNamedSymbol_leaf :
    (∀ name, ∃ a, findExportNamedSymbol nameA ((exportA ⟨0, 0x8000, 0x8000, 0⟩).header 0)
        ((exportA ⟨0, 0x8000, 0x8000, 0⟩).tables 0) name = .ok a) ∧
      (IsCritBitTree nameA ((exportA ⟨0, 0x8000, 0x8000, 0⟩).header 0)
        ((exportA ⟨0, 0x8000, 0x8000, 0⟩).tables 0) → ∀ name,
          findExportNamedSymbol nameA ((exportA ⟨0, 0x8000, 0x8000, 0⟩).header 0)
            ((exportA ⟨0, 0x8000, 0x8000, 0⟩).tables 0) name =
              .ok (exportAddress nameA ((exportA ⟨0, 0x8000, 0x8000, 0⟩).header 0)
                ((exportA ⟨0, 0x8000, 0x8000, 0⟩).tables 0) name)) :=
  (findExportNamedSymbol_iff nameA 0 (exportA ⟨0, 0x8000, 0x8000, 0⟩) rfl).mpr
    isLoopFree_leaf

/-- An entry of zeros is accepted, and its own child: no name is ever looked up to the end. -/
theorem findExportNamedSymbol_hangs :
    verifyExportTreeTable 0 (exportA ⟨0, 0, 0, 0⟩) = .value () (exportA ⟨0, 0, 0, 0⟩) ∧
      ∀ name, findExportNamedSymbol nameA ((exportA ⟨0, 0, 0, 0⟩).header 0)
          ((exportA ⟨0, 0, 0, 0⟩).tables 0) name = .error .endless ∧
        ∀ fuel, searchTree ((exportA ⟨0, 0, 0, 0⟩).tables 0).exportTree name fuel 0 =
          .error .endless := by
  refine ⟨rfl, fun name => ?_⟩
  have haccepted : IsAcceptedTree [⟨0, 0, 0, 0⟩] := by
    intro entry hentry
    cases List.mem_singleton.mp hentry
    decide
  have hback : ComesBack (nextChild [⟨0, 0, 0, 0⟩] (nameBit name)) 0 := by
    refine ⟨0, 1, Nat.one_pos, 0, rfl, ?_⟩
    exact congrArg some (ite_self 0)
  have hendless := searchTree_eq_endless haccepted (by decide) hback.not_ends
  have hroot : (⟨0, 0, 0, 0⟩ : ExportTreeEntry) ∈
      ((exportA ⟨0, 0, 0, 0⟩).tables 0).exportTree.head? := rfl
  exact ⟨find_of_error hroot (hendless _), hendless⟩

end Cytrus.Ldr
