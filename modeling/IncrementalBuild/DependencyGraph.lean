import IncrementalBuild.Declaration
import IncrementalBuild.Digraph.Toposort
import IncrementalBuild.Numbering

/-!
# The dependency graph

The dependency graph holds the last known declarations of every file. It is
asked which files provide a key, which files a change of some keys reaches,
and whether interfaces are built on each other in a circle.

Declarations sit in numbered slots, and keys and files are numbered as well.
Slots that become free are taken again, the one freed last first, so there
are never more slots than the graph once held declarations. What is asked is
not searched for in the slots: indexes by the number of a key say which slots
declare it, which are built on its interface and which use it, and they are
kept up to date slot by slot. The search for a circle goes through the slots
in ascending order.
-/

namespace IncrementalBuild

/-- What happened to a key. -/
inductive ChangeKind where
  | added
  | modified
  | removed
  deriving DecidableEq

def ChangeKind.name : ChangeKind → String
  | added => "added"
  | modified => "modified"
  | removed => "removed"

/-- A key and what happened to it. -/
structure KeyChange where
  key : String
  kind : ChangeKind
  deriving DecidableEq

namespace DependencyGraph

/-! ## Lists of declarations -/

/-- Puts a declaration in the place of an earlier one with the same key, or at
the end. -/
def putDeclaration (ds : List Declaration) (d : Declaration) : List Declaration :=
  if ds.any (·.key == d.key) then ds.map (fun old => if old.key == d.key then d else old)
  else ds ++ [d]

/-- One declaration for each key: at the first place of the key, and with the
last content. -/
def mergeDeclarations (ds : List Declaration) : List Declaration :=
  ds.foldl putDeclaration []

/-- The fingerprints of some declarations, by key. -/
def fingerprintsByKey (ds : List Declaration) : OrderedMap String Fingerprint :=
  OrderedMap.ofList (ds.map fun d => (d.key, d.fingerprint))

/-- What happens to the keys when the old fingerprints give way to the new
ones: first the keys that are added or modified, then those that are removed,
both in ascending order. -/
def keyChanges (old new : OrderedMap String Fingerprint) : List KeyChange :=
  new.entries.filterMap (fun (key, fingerprint) =>
    match old.get? key with
    | none => some ⟨key, .added⟩
    | some previous => if previous = fingerprint then none else some ⟨key, .modified⟩)
  ++ (old.keys.filter (fun key => !new.contains key)).map (⟨·, .removed⟩)

end DependencyGraph

/-! ## Slots -/

/-- A declaration as a slot holds it, with numbers in place of its file and
of keys. -/
structure SlotContent where
  file : Nat
  key : Nat
  fingerprint : Fingerprint
  provides : List Nat
  uses : List Nat

namespace SlotContent

/-- The declaration that is written in numbers. -/
def declaration (keys : Numbering String) (c : SlotContent) : Declaration :=
  ⟨keys.value c.key, c.fingerprint, c.provides.map keys.value, c.uses.map keys.value⟩

/-- A declaration of a file, written in numbers. Keys that have none are given
one. -/
def ofDeclaration (keys : Numbering String) (file : Nat) (d : Declaration) :
    SlotContent × Numbering String :=
  let (key, keys) := keys.enter d.key
  let (provides, keys) := keys.enterAll d.provides
  let (uses, keys) := keys.enterAll d.uses
  (⟨file, key, d.fingerprint, provides, uses⟩, keys)

end SlotContent

/-- For keys by their numbers, some slots. -/
abbrev SlotIndex := OrderedMap Nat (OrderedSet Nat)

namespace SlotIndex

/-- The slots under a key. -/
def slotsAt (ix : SlotIndex) (key : Nat) : OrderedSet Nat := (ix.get? key).getD ∅

/-- Enters a slot under a key. -/
def enter (ix : SlotIndex) (slot key : Nat) : SlotIndex :=
  ix.insert key ((ix.slotsAt key).add slot)

/-- Strikes a slot from under a key, and the key with its last slot. -/
def strike (ix : SlotIndex) (slot key : Nat) : SlotIndex :=
  match ix.get? key with
  | none => ix
  | some slots =>
    let left := slots.erase slot
    if left.isEmpty then ix.erase key else ix.insert key left

end SlotIndex

/-- **Declarations in slots**, and what is known of them by file and by key. -/
structure DeclarationStore where
  /-- What each slot holds. -/
  slots : List (Option SlotContent)
  /-- The slots that became free, the one freed last first. -/
  free : List Nat
  /-- Every key that was ever declared or depended on. -/
  keys : Numbering String
  /-- Every path that ever had declarations, as it was spelled at first. -/
  paths : Numbering Path
  /-- The slots of each file that has declarations, in their order. -/
  byFile : OrderedMap Nat (List Nat)
  /-- The slots that declare a key. -/
  providers : SlotIndex
  /-- The slots that are built on the interface of a key. -/
  interfaceUsers : SlotIndex
  /-- The slots of which only the body uses a key. -/
  bodyUsers : SlotIndex

namespace DeclarationStore

def empty : DeclarationStore := ⟨[], [], .empty, .empty, ∅, ∅, ∅, ∅⟩

/-- What a slot holds. -/
def contentAt? (s : DeclarationStore) (slot : Nat) : Option SlotContent := s.slots[slot]?.join

/-- The declaration that stands in a slot. -/
def declaration (s : DeclarationStore) (c : SlotContent) : Declaration := c.declaration s.keys

/-- The slots of a file. -/
def slotsOf (s : DeclarationStore) (p : Path) : List Nat :=
  match s.paths.number? p with
  | none => []
  | some file => (s.byFile.get? file).getD []

/-- The declarations of a file, in their order. -/
def declarationsOf (s : DeclarationStore) (p : Path) : List Declaration :=
  ((s.slotsOf p).filterMap s.contentAt?).map s.declaration

def containsFile (s : DeclarationStore) (p : Path) : Bool :=
  (s.paths.number? p).any s.byFile.contains

/-- The files that have declarations, in ascending order. -/
def fileList (s : DeclarationStore) : List Path :=
  (OrderedSet.ofList (s.byFile.keys.map s.paths.value)).toList

/-- The declarations of each file that has some. -/
def files (s : DeclarationStore) : OrderedMap Path (List Declaration) :=
  OrderedMap.ofList (s.fileList.map fun p => (p, s.declarationsOf p))

/-- How many declarations there are. -/
def declarationCount (s : DeclarationStore) : Nat := s.slots.countP Option.isSome

/-- The files of what some slots hold. -/
def owners (s : DeclarationStore) (slots : OrderedSet Nat) : OrderedSet Path :=
  OrderedSet.ofList ((slots.toList.filterMap s.contentAt?).map fun c => s.paths.value c.file)

/-- The files that declare a key. -/
def providersOf (s : DeclarationStore) (key : String) : OrderedSet Path :=
  match s.keys.number? key with
  | none => ∅
  | some k => s.owners (s.providers.slotsAt k)

/-- The slots that the change of a key reaches: those that are built on its
interface, and if no slot declares it any more, those that use it. -/
def slotsReached (s : DeclarationStore) (change : KeyChange) : OrderedSet Nat :=
  match s.keys.number? change.key with
  | none => ∅
  | some k =>
    if change.kind == .removed && (s.providers.slotsAt k).isEmpty then
      (s.interfaceUsers.slotsAt k).union (s.bodyUsers.slotsAt k)
    else s.interfaceUsers.slotsAt k

/-- **The files that a change of some keys reaches**, one file left out. -/
def filesAffectedBy (s : DeclarationStore) (changes : List KeyChange) (exclude : Path) :
    OrderedSet Path :=
  (s.owners (changes.foldl (fun slots change => slots.union (s.slotsReached change)) ∅)).erase
    exclude

/-! ### Replacing the declarations of a file -/

/-- Empties a slot. -/
def vacate (s : DeclarationStore) (slot : Nat) : DeclarationStore :=
  match s.contentAt? slot with
  | none => s
  | some c =>
    { s with
      slots := s.slots.set slot none
      free := slot :: s.free
      providers := s.providers.strike slot c.key
      interfaceUsers := c.provides.foldl (fun ix key => ix.strike slot key) s.interfaceUsers
      bodyUsers := c.uses.foldl (fun ix key => ix.strike slot key) s.bodyUsers }

/-- Takes the declarations of a file out of their slots. -/
def dropFile (s : DeclarationStore) (p : Path) : DeclarationStore :=
  match s.paths.number? p with
  | none => s
  | some file =>
    match s.byFile.get? file with
    | none => s
    | some slots => slots.foldl vacate { s with byFile := s.byFile.erase file }

/-- Puts something into the slot that was freed last, or into a new one. -/
def place (s : DeclarationStore) (c : SlotContent) : Nat × DeclarationStore :=
  match s.free with
  | slot :: rest => (slot, { s with slots := s.slots.set slot (some c), free := rest })
  | [] => (s.slots.length, { s with slots := s.slots ++ [some c] })

/-- Fills a free slot. -/
def fill (s : DeclarationStore) (c : SlotContent) : Nat × DeclarationStore :=
  let (slot, s) := s.place c
  (slot, { s with
    providers := s.providers.enter slot c.key
    interfaceUsers := c.provides.foldl (fun ix key => ix.enter slot key) s.interfaceUsers
    bodyUsers := c.uses.foldl (fun ix key => ix.enter slot key) s.bodyUsers })

/-- Puts a declaration of a file into a slot. -/
def putDeclaration (s : DeclarationStore) (file : Nat) (d : Declaration) :
    Nat × DeclarationStore :=
  let (c, keys) := SlotContent.ofDeclaration s.keys file d
  { s with keys }.fill c

/-- Puts declarations of a file into slots, one after the other. -/
def putDeclarations (s : DeclarationStore) (file : Nat) :
    List Declaration → List Nat × DeclarationStore
  | [] => ([], s)
  | d :: rest =>
    let (slot, s) := s.putDeclaration file d
    let (slots, s) := putDeclarations s file rest
    (slot :: slots, s)

/-- Notes which slots belong to a file. -/
def listFile (s : DeclarationStore) (file : Nat) (slots : List Nat) : DeclarationStore :=
  { s with byFile := s.byFile.insert file slots }

/-- Puts in the declarations of a file that has none. -/
def putFile (s : DeclarationStore) (p : Path) (ds : List Declaration) : DeclarationStore :=
  if ds.isEmpty then s
  else
    let (file, paths) := s.paths.enter p
    let (slots, s) := { s with paths }.putDeclarations file ds
    s.listFile file slots

/-- Replaces the declarations of a file, and tells which keys that changes. -/
def replace (s : DeclarationStore) (p : Path) (ds : List Declaration) :
    DeclarationStore × List KeyChange :=
  let new := DependencyGraph.mergeDeclarations ds
  let changes := DependencyGraph.keyChanges
    (DependencyGraph.fingerprintsByKey (s.declarationsOf p))
    (DependencyGraph.fingerprintsByKey new)
  ((s.dropFile p).putFile p new, changes)

/-- **The stores that replacements lead to**, one after the other from the
empty store on. -/
inductive Reached : DeclarationStore → Prop
  | empty : Reached .empty
  | replace {s} (h : Reached s) (p : Path) (ds : List Declaration) : Reached (s.replace p ds).1

/-! ### Circles -/

/-- The keys, with an edge from each key to every other key that is built on
its interface. Declarations are taken in the order of their slots. -/
def interfaceRelation (s : DeclarationStore) : Digraph String :=
  ((s.slots.filterMap id).map s.declaration).foldl
    (fun r d => (d.provides.filter (· ≠ d.key)).foldl (fun r k => r.addEdge k d.key)
      (r.addNode d.key))
    Digraph.empty

/-- A key on a circle of interfaces, if there is a circle. -/
def interfaceCycle? (s : DeclarationStore) : Option String :=
  match s.interfaceRelation.toposort with
  | .error key => some key
  | .ok _ => none

end DeclarationStore

/-! ## Graphs -/

/-- **The last known declarations of every file**: a store as replacements
have left it. -/
structure DependencyGraph extends DeclarationStore where
  reached : toDeclarationStore.Reached

namespace DependencyGraph

def empty : DependencyGraph := ⟨.empty, .empty⟩

instance : Inhabited DependencyGraph := ⟨empty⟩

/-- **Replaces the declarations of a file**, and tells which keys that
changes. -/
def replace (g : DependencyGraph) (p : Path) (ds : List Declaration) :
    DependencyGraph × List KeyChange :=
  let after := g.toDeclarationStore.replace p ds
  (⟨after.1, g.reached.replace p ds⟩, after.2)

/-- Takes a file out of the graph, and tells which keys that removes. -/
def removeFile (g : DependencyGraph) (p : Path) : DependencyGraph × List KeyChange :=
  g.replace p []

end DependencyGraph

end IncrementalBuild
