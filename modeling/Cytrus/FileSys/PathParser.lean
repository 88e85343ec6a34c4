import Cytrus.Support.LexicalPath

/-!
# Guest paths and host paths

A guest path is checked component by component before it is appended to the
mount point of its archive.

## Main results

* `host_path_confined`: a path that is accepted never leaves the mount point

## Implementation notes

Strings are lists of bytes. The conversion from UTF-16 is a parameter, and so is
what the host reports about its files. The last character of an empty string is
undefined, so building a host path fails there.
-/

namespace Cytrus.FileSys

open Support

/-- `std::string`. -/
abbrev Chars := List UInt8

inductive LowPathType where
  | invalid
  | empty
  | binary
  | char
  | wchar
  deriving DecidableEq, Repr

structure Path where
  type : LowPathType
  binary : List UInt8 := []
  string : Chars := []
  u16str : List UInt16 := []
  deriving DecidableEq, Repr

def Path.asString (utf16ToUtf8 : List UInt16 → Chars) (path : Path) : Chars :=
  match path.type with
  | .char => path.string
  | .wchar => utf16ToUtf8 path.u16str
  | .empty | .invalid | .binary => []

def slash : UInt8 := '/'.toUInt8

def invalidChars : List UInt8 := ['<', '>', '\\', '|', ':', '"', '*', '?'].map Char.toUInt8

/-- The component `.`. -/
def dot : Chars := ['.'.toUInt8]

/-- The component `..`. -/
def dotDot : Chars := ['.'.toUInt8, '.'.toUInt8]

/-- `Common::SplitString`: a delimiter at the end starts no further piece. -/
def splitString (delim : UInt8) : Chars → List Chars
  | [] => []
  | c :: rest =>
      if c = delim then [] :: splitString delim rest
      else
        match splitString delim rest with
        | [] => [[c]]
        | piece :: pieces => (c :: piece) :: pieces

/-- The loop that follows the depth below the root; it fails where the path leaves the root. -/
def checkLevel : List Chars → Int → Option Int
  | [], level => some level
  | node :: rest, level =>
      if node = dotDot then
        if level - 1 < 0 then none else checkLevel rest (level - 1)
      else checkLevel rest (level + 1)

structure PathParser where
  pathSequence : List Chars := []
  isValid : Bool := false
  isRoot : Bool := false
  deriving DecidableEq, Repr

inductive HostStatus where
  | invalidMountPoint
  | pathNotFound
  | fileInPath
  | fileFound
  | directoryFound
  | notFound
  deriving DecidableEq, Repr

/-- What the host reports about its files. -/
structure HostFiles where
  isDirectory : Chars → Bool
  exists_ : Chars → Bool

/-- `path.back()` is not a slash: append one. -/
def withSlash (path : Chars) : Option Chars := do
  let back ← path.getLast?
  return if back ≠ slash then path ++ [slash] else path

/-- One round of the loop of `BuildHostPath`. -/
def appendNode (path node : Chars) : Option Chars := do
  return (← withSlash path) ++ node

namespace PathParser

/-- `path_sequence`: the pieces of the path but the empty ones and the dots. -/
def sequenceOf (pathString : Chars) : List Chars :=
  (splitString slash pathString).filter fun str => decide (¬(str = [] ∨ str = dot))

/-- The bounds check at the end of the constructor. -/
def ofSequence (pathSequence : List Chars) : PathParser :=
  match checkLevel pathSequence 0 with
  | none => { pathSequence }
  | some level => { pathSequence, isValid := true, isRoot := decide (level = 0) }

/-- `PathParser::PathParser`. -/
def ofPath (utf16ToUtf8 : List UInt16 → Chars) (path : Path) : PathParser :=
  if path.type ≠ .char ∧ path.type ≠ .wchar then {}
  else
    let pathString := path.asString utf16ToUtf8
    if pathString.head? ≠ some slash then {}
    else if pathString.any (invalidChars.contains ·) then {}
    else ofSequence (sequenceOf pathString)

def buildHostPath (p : PathParser) (mountPoint : Chars) : Option Chars :=
  p.pathSequence.foldlM appendNode mountPoint

/-- The loop of `GetHostStatus` over all components but the last. -/
def checkParents (host : HostFiles) : List Chars → Chars → Option (HostStatus ⊕ Chars)
  | [], path => some (.inr path)
  | node :: rest, path => do
      let path ← appendNode path node
      if ¬host.exists_ path then return .inl .pathNotFound
      if host.isDirectory path then checkParents host rest path else return .inl .fileInPath

def getHostStatus (p : PathParser) (host : HostFiles) (mountPoint : Chars) : Option HostStatus :=
  if ¬host.isDirectory mountPoint then some .invalidMountPoint
  else
    match p.pathSequence.getLast? with
    | none => some .directoryFound
    | some last => do
        match ← checkParents host p.pathSequence.dropLast mountPoint with
        | .inl status => return status
        | .inr path =>
            let path := path ++ slash :: last
            if ¬host.exists_ path then return .notFound
            return if host.isDirectory path then .directoryFound else .fileFound

end PathParser

/-! ### What a host path names -/

/-- A node of a path as a component. -/
def component (node : Chars) : Component Chars :=
  if node = dot then .current else if node = dotDot then .parent else .name node

/-- The components of a path; empty ones name nothing. -/
def components (path : Chars) : List (Component Chars) :=
  ((splitString slash path).filter (· ≠ [])).map component

/-- Where a path starts. -/
def startOf (path : Chars) : Location Chars := { absolute := path.head? = some slash }

/-- Where a path leads when `.` and `..` are resolved lexically. -/
def resolvePath (path : Chars) : Location Chars := (startOf path).resolve (components path)

section Splitting

variable {delim : UInt8} {p q node : Chars}

theorem splitString_snoc (delim : UInt8) (p : Chars) :
    ∃ piece pieces, splitString delim (p ++ [delim]) = piece :: pieces := by
  cases p with
  | nil => exact ⟨[], [], by simp [splitString]⟩
  | cons c rest =>
      rw [List.cons_append, splitString]
      split
      · exact ⟨_, _, rfl⟩
      · split
        · exact ⟨_, _, rfl⟩
        · exact ⟨_, _, rfl⟩

theorem splitString_append (p q : Chars) :
    splitString delim (p ++ delim :: q) = splitString delim (p ++ [delim]) ++ splitString delim q := by
  induction p with
  | nil => simp [splitString]
  | cons c rest ih =>
      obtain ⟨piece, pieces, hsplit⟩ := splitString_snoc delim rest
      simp only [List.cons_append, splitString, ih, hsplit]
      split <;> rfl

theorem splitString_end (delim : UInt8) (p : Chars) :
    splitString delim (p ++ [delim]) = splitString delim p ∨
      splitString delim (p ++ [delim]) = splitString delim p ++ [[]] := by
  induction p with
  | nil => exact .inr (by simp [splitString])
  | cons c rest ih =>
      simp only [List.cons_append, splitString]
      split
      · rcases ih with h | h
        · exact .inl (by rw [h])
        · exact .inr (by rw [h]; rfl)
      · rcases ih with h | h
        · exact .inl (by rw [h])
        · rw [h]
          cases splitString delim rest with
          | nil => exact .inl rfl
          | cons piece pieces => exact .inr rfl

theorem splitString_self (hne : node ≠ []) (hnode : delim ∉ node) :
    splitString delim node = [node] := by
  induction node with
  | nil => exact absurd rfl hne
  | cons c rest ih =>
      have hc : c ≠ delim := fun h => hnode (h ▸ List.mem_cons_self)
      have hrest : delim ∉ rest := fun h => hnode (List.mem_cons_of_mem c h)
      rw [splitString, if_neg hc]
      cases rest with
      | nil => rfl
      | cons d more => rw [ih (by simp) hrest]

theorem not_mem_of_mem_splitString (h : node ∈ splitString delim p) : delim ∉ node := by
  induction p generalizing node with
  | nil => simp [splitString] at h
  | cons c rest ih =>
      rw [splitString] at h
      split at h
      · rcases List.mem_cons.mp h with rfl | h
        · simp
        · exact ih h
      · rename_i hc
        split at h
        · rw [List.mem_singleton.mp h]
          simpa using fun hd => hc hd.symm
        · rename_i piece pieces hsplit
          rcases List.mem_cons.mp h with rfl | h
          · have hpiece : delim ∉ piece := ih (by rw [hsplit]; exact List.mem_cons_self)
            simpa using ⟨fun hd => hc hd.symm, hpiece⟩
          · exact ih (by rw [hsplit]; exact List.mem_cons_of_mem piece h)

end Splitting

@[simp] theorem components_end (p : Chars) : components (p ++ [slash]) = components p := by
  rcases splitString_end slash p with h | h <;> simp [components, h]

theorem components_append (p q : Chars) :
    components (p ++ slash :: q) = components p ++ components q := by
  rw [← components_end p]
  simp [components, splitString_append p q]

theorem components_node {node : Chars} (hne : node ≠ []) (hnode : slash ∉ node) :
    components node = [component node] := by
  simp [components, splitString_self hne hnode, hne]

theorem appendNode_spec {path node : Chars} (hpath : path ≠ []) (hne : node ≠ [])
    (hnode : slash ∉ node) :
    ∃ path', appendNode path node = some path' ∧ path'.head? = path.head? ∧
      components path' = components path ++ [component node] := by
  obtain ⟨front, last, rfl⟩ := (List.eq_nil_or_concat path).resolve_left hpath
  rw [List.concat_eq_append] at *
  by_cases hlast : last = slash
  · subst hlast
    refine ⟨front ++ slash :: node, by simp [appendNode, withSlash], by cases front <;> rfl, ?_⟩
    rw [components_append, components_end, components_node hne hnode]
  · refine ⟨front ++ [last] ++ slash :: node, by simp [appendNode, withSlash, hlast], ?_, ?_⟩
    · cases front <;> rfl
    · rw [components_append, components_node hne hnode]

/-- A node as the parser keeps it: it names something and is no `.`. -/
def Kept (node : Chars) : Prop := node ≠ [] ∧ node ≠ dot ∧ slash ∉ node

theorem foldlM_appendNode {nodes : List Chars} (hnodes : ∀ node ∈ nodes, Kept node) {path : Chars}
    (hpath : path ≠ []) :
    ∃ path', nodes.foldlM appendNode path = some path' ∧ path'.head? = path.head? ∧
      components path' = components path ++ nodes.map component := by
  induction nodes generalizing path with
  | nil => exact ⟨path, rfl, rfl, by simp⟩
  | cons node rest ih =>
      obtain ⟨hne, -, hnode⟩ := hnodes node List.mem_cons_self
      obtain ⟨next, happend, hhead, hcomponents⟩ := appendNode_spec hpath hne hnode
      have hnext : next ≠ [] := by
        rintro rfl
        cases path with
        | nil => exact hpath rfl
        | cons c path => simp at hhead
      obtain ⟨path', hfold, hhead', hcomponents'⟩ :=
        ih (fun other hother => hnodes other (List.mem_cons_of_mem node hother)) hnext
      refine ⟨path', ?_, hhead'.trans hhead, ?_⟩
      · rw [List.foldlM_cons, happend]
        exact hfold
      · rw [hcomponents', hcomponents, List.map_cons, List.append_assoc, List.singleton_append]

section Levels

variable {node : Chars} {nodes : List Chars} {level level' : Int}

theorem depth_component (hnode : node ≠ dot) :
    (component node).depth = if node = dotDot then -1 else 1 := by
  rw [component, if_neg hnode]
  split <;> rfl

theorem checkLevel_eq_some (hnodes : ∀ node ∈ nodes, node ≠ dot) (hlevel : 0 ≤ level)
    (h : checkLevel nodes level = some level') :
    level' = level + depth (nodes.map component) ∧
      ∀ front, front <+: nodes.map component → 0 ≤ level + depth front := by
  induction nodes generalizing level with
  | nil =>
      cases h
      simpa using hlevel
  | cons node rest ih =>
      have hdepth := depth_component (hnodes node List.mem_cons_self)
      have hrest : ∀ other ∈ rest, other ≠ dot :=
        fun other hother => hnodes other (List.mem_cons_of_mem node hother)
      have hstep : 0 ≤ level + (component node).depth ∧
          checkLevel rest (level + (component node).depth) = some level' := by
        rw [hdepth]
        rw [checkLevel] at h
        split_ifs at h ⊢ with hnode hneg
        · exact ⟨by omega, h⟩
        · exact ⟨by omega, h⟩
      obtain ⟨hfinal, hfronts⟩ := ih hrest hstep.1 hstep.2
      refine ⟨?_, ?_⟩
      · rw [hfinal, List.map_cons, depth_cons, add_assoc]
      · intro front hfront
        rw [List.map_cons] at hfront
        cases front with
        | nil => simpa using hlevel
        | cons c front =>
            obtain ⟨rfl, htail⟩ := List.cons_prefix_cons.mp hfront
            rw [depth_cons, ← add_assoc]
            exact hfronts front htail

end Levels

/-- What acceptance says about the nodes of a parser. -/
structure Accepted (p : PathParser) : Prop where
  kept : ∀ node ∈ p.pathSequence, Kept node
  contained : Contained (p.pathSequence.map component)
  isRoot : p.isRoot ↔ depth (p.pathSequence.map component) = 0

theorem kept_of_mem_sequenceOf {pathString node : Chars}
    (h : node ∈ PathParser.sequenceOf pathString) : Kept node := by
  rw [PathParser.sequenceOf, List.mem_filter, decide_eq_true_eq, not_or] at h
  exact ⟨h.2.1, h.2.2, not_mem_of_mem_splitString h.1⟩

theorem accepted_ofSequence {nodes : List Chars} (hkept : ∀ node ∈ nodes, Kept node)
    (h : (PathParser.ofSequence nodes).isValid) : Accepted (PathParser.ofSequence nodes) := by
  unfold PathParser.ofSequence at h ⊢
  cases hcheck : checkLevel nodes 0 with
  | none => simp [hcheck] at h
  | some level =>
      obtain ⟨hlevel, hfronts⟩ :=
        checkLevel_eq_some (fun node hnode => (hkept node hnode).2.1) le_rfl hcheck
      exact ⟨hkept, fun front hfront => by simpa using hfronts front hfront, by simp [hlevel]⟩

theorem accepted_ofPath {utf16ToUtf8 : List UInt16 → Chars} {path : Path}
    (h : (PathParser.ofPath utf16ToUtf8 path).isValid) :
    Accepted (PathParser.ofPath utf16ToUtf8 path) := by
  simp only [PathParser.ofPath] at h ⊢
  split_ifs at h ⊢
  exact accepted_ofSequence (fun node hnode => kept_of_mem_sequenceOf hnode) h

section Confinement

variable {p : PathParser} {mountPoint hostPath : Chars}

theorem Accepted.below (h : Accepted p) {front : List Chars} (hfront : front <+: p.pathSequence)
    (hhead : hostPath.head? = mountPoint.head?)
    (hcomponents : components hostPath = components mountPoint ++ front.map component) :
    (resolvePath mountPoint).AtOrBelow (resolvePath hostPath) := by
  have hstart : startOf hostPath = startOf mountPoint := by rw [startOf, hhead, startOf]
  rw [resolvePath, resolvePath, hcomponents, hstart, Location.resolve_append]
  exact (Location.resolve_below _ (h.contained.of_prefix (hfront.map component))).1

theorem Accepted.confined (h : Accepted p) (hhead : hostPath.head? = mountPoint.head?)
    (hcomponents : components hostPath = components mountPoint ++ p.pathSequence.map component) :
    components mountPoint <+: components hostPath ∧
      (∀ front, components mountPoint <+: front → front <+: components hostPath →
        (resolvePath mountPoint).AtOrBelow ((startOf hostPath).resolve front)) ∧
      (p.isRoot ↔ resolvePath hostPath = resolvePath mountPoint) := by
  have hstart : startOf hostPath = startOf mountPoint := by rw [startOf, hhead, startOf]
  refine ⟨⟨_, hcomponents.symm⟩, ?_, ?_⟩
  · rintro _ ⟨nodes, rfl⟩ hfront
    rw [hcomponents, List.prefix_append_right_inj] at hfront
    rw [hstart, Location.resolve_append]
    exact (Location.resolve_below _ (h.contained.of_prefix hfront)).1
  · rw [resolvePath, hcomponents, hstart, Location.resolve_append, h.isRoot]
    exact (Location.resolve_below _ h.contained).2.symm

/-- The host path of an accepted guest path stays at or below the mount point at every prefix,
and is the mount point exactly for the root directory. -/
theorem host_path_confined (utf16ToUtf8 : List UInt16 → Chars) (path : Path) (mountPoint : Chars)
    (hvalid : (PathParser.ofPath utf16ToUtf8 path).isValid) :
    (mountPoint ≠ [] → ((PathParser.ofPath utf16ToUtf8 path).buildHostPath mountPoint).isSome) ∧
      ∀ hostPath, (PathParser.ofPath utf16ToUtf8 path).buildHostPath mountPoint = some hostPath →
        components mountPoint <+: components hostPath ∧
        (∀ front, components mountPoint <+: front → front <+: components hostPath →
          (resolvePath mountPoint).AtOrBelow ((startOf hostPath).resolve front)) ∧
        ((PathParser.ofPath utf16ToUtf8 path).isRoot ↔
          resolvePath hostPath = resolvePath mountPoint) := by
  have haccepted := accepted_ofPath hvalid
  generalize PathParser.ofPath utf16ToUtf8 path = parser at haccepted
  by_cases hmount : mountPoint = []
  · subst hmount
    refine ⟨fun hne => absurd rfl hne, fun hostPath hbuild => ?_⟩
    have hempty : parser.pathSequence = [] := by
      cases hnodes : parser.pathSequence with
      | nil => rfl
      | cons node rest => simp [PathParser.buildHostPath, hnodes, appendNode, withSlash] at hbuild
    obtain rfl : [] = hostPath := by simpa [PathParser.buildHostPath, hempty] using hbuild
    exact haccepted.confined rfl (by simp [hempty])
  · obtain ⟨hostPath, hbuild, hhead, hcomponents⟩ := foldlM_appendNode haccepted.kept hmount
    refine ⟨fun _ => Option.isSome_iff_exists.mpr ⟨hostPath, hbuild⟩, fun other hother => ?_⟩
    obtain rfl : hostPath = other := Option.some.inj (hbuild.symm.trans hother)
    exact haccepted.confined hhead hcomponents

/-- `/a/../b` below the mount point `/m`. -/
theorem host_path_confined_climb :
    (PathParser.ofPath (fun _ => [])
        { type := .char, string := ['/', 'a', '/', '.', '.', '/', 'b'].map Char.toUInt8 }).isValid ∧
      ((PathParser.ofPath (fun _ => [])
        { type := .char, string := ['/', 'a', '/', '.', '.', '/', 'b'].map Char.toUInt8 }).buildHostPath
          (['/', 'm'].map Char.toUInt8)).isSome :=
  ⟨by decide, (host_path_confined _ _ _ (by decide)).1 (by decide)⟩

/-- Two hosts that report the same about every path at or below the mount point. -/
def SameBelow (host host' : HostFiles) (mountPoint : Chars) : Prop :=
  ∀ path, (resolvePath mountPoint).AtOrBelow (resolvePath path) →
    host.isDirectory path = host'.isDirectory path ∧ host.exists_ path = host'.exists_ path

theorem checkParents_congr (h : Accepted p) {host host' : HostFiles}
    (hsame : SameBelow host host' mountPoint) {front nodes : List Chars} {path : Chars}
    (hnodes : front ++ nodes <+: p.pathSequence) (hpath : path ≠ [])
    (hhead : path.head? = mountPoint.head?)
    (hcomponents : components path = components mountPoint ++ front.map component) :
    PathParser.checkParents host nodes path = PathParser.checkParents host' nodes path ∧
      ∀ path', PathParser.checkParents host nodes path = some (.inr path') →
        path' ≠ [] ∧ path'.head? = mountPoint.head? ∧
          components path' = components mountPoint ++ (front ++ nodes).map component := by
  induction nodes generalizing front path with
  | nil =>
      refine ⟨rfl, fun path' hpath' => ?_⟩
      obtain rfl : path = path' := Sum.inr.inj (Option.some.inj hpath')
      exact ⟨hpath, hhead, by simpa using hcomponents⟩
  | cons node rest ih =>
      obtain ⟨hne, -, hslash⟩ := h.kept node (hnodes.subset (by simp))
      obtain ⟨next, happend, hhead', hcomponents'⟩ := appendNode_spec hpath hne hslash
      have hlist : front ++ [node] ++ rest <+: p.pathSequence := by simpa using hnodes
      have hnext : components next = components mountPoint ++ (front ++ [node]).map component := by
        simp [hcomponents', hcomponents]
      have hnonempty : next ≠ [] := by
        rintro rfl
        cases path with
        | nil => exact hpath rfl
        | cons c path => simp at hhead'
      obtain ⟨hdirectory, hexists⟩ := hsame next
        (h.below ((List.prefix_append _ rest).trans hlist) (hhead'.trans hhead) hnext)
      obtain ⟨heq, hpost⟩ := ih hlist hnonempty (hhead'.trans hhead) hnext
      simp only [PathParser.checkParents, happend, Option.bind_eq_bind, Option.bind_some,
        ← hdirectory, ← hexists, heq]
      refine ⟨trivial, fun path' hpath' => ?_⟩
      split_ifs at hpath' with hfound hdir
      · simpa using hpost path' (heq.trans hpath')
      all_goals cases hpath'

end Confinement

end Cytrus.FileSys
