import RealTime.Ring.Region

/-! # One machine's shared queues

A `Host` has a tree of files, the memory behind the files, the mappings that processes have
made of it, and the locks that they hold.  All mappings of one file show the same memory, also
after the name of the file is gone.  The one that created a queue removes its file when it is
unmapped.

Mappings and held locks are known by names; `perform` answers one request of a process. -/

namespace RealTime

/-- What another process needs to map a queue. -/
structure RingHandle where
  path : String
  capacity : UInt64
  deriving DecidableEq, Repr

/-- One process's view of a queue. -/
structure Mapping where
  /-- The file whose memory is mapped. -/
  file : Nat
  handle : RingHandle
  /-- Whether this mapping created the queue. -/
  owner : Bool

/-- A held lock. -/
structure Guard where
  /-- Name of the mapping through which the lock was taken. -/
  mapping : String
  file : Nat
  capacity : UInt64

/-- Files, their memory, and the views and locks of the processes. -/
structure Host where
  tree : FileTree
  memory : OrderedMap Nat Region := .empty
  nextFile : Nat := 0
  mappings : OrderedMap String Mapping := .empty
  guards : OrderedMap String Guard := .empty

namespace Host

/-- The memory of a file. -/
def region (h : Host) (file : Nat) : Region := (h.memory.get? file).getD (.zeros 0)

/-- Replace the memory of a file. -/
def setRegion (h : Host) (file : Nat) (r : Region) : Host :=
  { h with memory := h.memory.insert file r }

/-- The memory of the file that a path names. -/
def regionAt? (h : Host) (path : String) : Option Region :=
  match h.tree.openFile path with
  | .ok file => some (h.region file)
  | .error _ => none

/-- Change the memory of the file that a path names. -/
def modifyAt (h : Host) (path : String) (f : Region → Region) : Host :=
  match h.tree.openFile path with
  | .ok file => h.setRegion file (f (h.region file))
  | .error _ => h

/-- The header of the file that a path names, if it is long enough to have one. -/
def headerAt? (h : Host) (path : String) : Option Header :=
  match h.regionAt? path with
  | some r => if r.size.toNat < Header.size then none else some r.header
  | none => none

/-- Write a file anew: open or make it and cut it to nothing. -/
def rewind (h : Host) (path : String) : Except FileFault (Nat × Host) :=
  match h.tree.createFile path h.nextFile with
  | .ok (file, tree) =>
    .ok (file, { h with tree, nextFile := h.nextFile + 1 }.setRegion file (.zeros 0))
  | .error fault => .error fault

/-- Free a lock and forget who held it. -/
def release (h : Host) (name : String) (g : Guard) : Host :=
  { h with guards := h.guards.erase name }.setRegion g.file (h.region g.file).unlock

/-- Unmap a queue.  Locks taken through the mapping are freed first. -/
def unmap (h : Host) (name : String) (m : Mapping) : Host :=
  -- a process cannot hold a lock in memory that it does not map any more
  let h := h.guards.entries.foldl
    (fun h (n, g) => if g.mapping = name then h.release n g else h) h
  if m.owner then { h with tree := h.tree.removeFile m.handle.path } else h

/-- Give a name to a new mapping.  A mapping that had the name is unmapped afterwards. -/
def bind (h : Host) (name : String) (m : Mapping) : Host :=
  let bound := { h with mappings := h.mappings.insert name m }
  match h.mappings.get? name with
  | some old => bound.unmap name old
  | none => bound

/-- Give a name to a newly held lock.  A lock that had the name is freed afterwards. -/
def hold (h : Host) (name : String) (g : Guard) : Host :=
  let h := match h.guards.get? name with
    | some old => h.release name old
    | none => h
  { h with guards := h.guards.insert name g }

/-- What a process can ask for.  Names of mappings come first, then names of locks. -/
inductive Request where
  | create (name path : String) (capacity : UInt64)
  | attach (name path : String) (capacity : UInt64)
  | unmap (name : String)
  | enqueue (name : String) (task : Task)
  | dequeue (name : String)
  | list (name : String)
  | lock (name guard : String)
  | unlock (guard : String)
  | push (guard : String) (task : Task)
  | pop (guard : String)
  | state (guard : String)
  | contents (guard : String)
  | poke (path : String) (field : Header.Field) (value : Nat)
  | pokeSlot (path : String) (index : Nat) (field : Slot.Field) (value : Int)
  | pokeName (path : String) (index : Nat) (octets : List UInt8)
  | inspect (path : String)
  | exists (path : String)
  | writeZeros (path : String) (length : Nat)
  | makeDirectory (path : String)

/-- The answer to a request. -/
inductive Reply where
  | mapped (handle : RingHandle)
  | flag (value : Bool)
  | queued
  | done
  | task (t : Task)
  | tasks (ts : List Task)
  | state (window occupied : UInt64) (empty : Bool)
  | memory (r : Option Region)
  | unknownMapping
  | unknownGuard
  | failed (error : RingError)

/-- The answer that reports the outcome of an operation. -/
def Reply.ofExcept {α : Type} (f : α → Reply) : Except RingError α → Reply
  | .ok a => f a
  | .error e => .failed e

/-- Create a queue and map it. -/
def create (h : Host) (name path : String) (capacity : UInt64) : Reply × Host :=
  if capacity = 0 then (.failed (.layout path .zeroCapacity), h)
  else
    -- the length is known before the file is touched
    match Region.lengthFor capacity with
    | .error e => (.failed e, h)
    | .ok length =>
      match h.rewind path with
      | .error fault => (.failed (.region path fault), h)
      | .ok (file, h) =>
        if length > Region.longest then (.failed (.region path .lengthOutOfRange), h)
        else
          let handle : RingHandle := ⟨path, capacity⟩
          let r := (Region.zeros length).initialise capacity
          (.mapped handle, (h.setRegion file r).bind name ⟨file, handle, true⟩)

/-- Map a queue that exists. -/
def attach (h : Host) (name path : String) (capacity : UInt64) : Reply × Host :=
  match h.tree.openFile path with
  | .error fault => (.failed (.region path fault), h)
  | .ok file =>
    match (h.region file).check path capacity with
    | .error e => (.failed e, h)
    | .ok () =>
      let handle : RingHandle := ⟨path, capacity⟩
      (.mapped handle, h.bind name ⟨file, handle, false⟩)

/-- Do one operation on the queue behind a mapping. -/
def through {α : Type} (h : Host) (name : String) (reply : α → Reply)
    (op : Region → UInt64 → Except RingError α × Region) : Reply × Host :=
  match h.mappings.get? name with
  | none => (.unknownMapping, h)
  | some m =>
    let (result, r) := op (h.region m.file) m.handle.capacity
    (.ofExcept reply result, h.setRegion m.file r)

/-- Work under a held lock. -/
def under {α : Type} (h : Host) (guard : String) (reply : α → Reply)
    (work : Region → UInt64 → Except RingError (α × Region)) : Reply × Host :=
  match h.guards.get? guard with
  | none => (.unknownGuard, h)
  | some g =>
    match work (h.region g.file) g.capacity with
    | .ok (a, r) => (reply a, h.setRegion g.file r)
    | .error e => (.failed e, h)

/-- Answer one request. -/
def perform (h : Host) : Request → Reply × Host
  | .create name path capacity => h.create name path capacity
  | .attach name path capacity => h.attach name path capacity
  | .unmap name =>
    match h.mappings.get? name with
    | none => (.flag false, h)
    | some m =>
      (.flag true, { h.unmap name m with mappings := h.mappings.erase name })
  | .enqueue name task => h.through name (fun () => .queued) fun r capacity => r.enqueue capacity task
  | .dequeue name => h.through name .task fun r capacity => r.dequeue capacity
  | .list name => h.through name .tasks fun r capacity => r.list capacity
  | .lock name guard =>
    match h.mappings.get? name with
    | none => (.unknownMapping, h)
    | some m =>
      match (h.region m.file).tryLock with
      | none => (.flag false, h)
      | some r =>
        (.flag true, (h.setRegion m.file r).hold guard ⟨name, m.file, m.handle.capacity⟩)
  | .unlock guard =>
    match h.guards.get? guard with
    | none => (.flag false, h)
    | some g => (.flag true, h.release guard g)
  | .push guard task =>
    h.under guard (fun () => .queued) fun r capacity => (r.push capacity task).map ((), ·)
  | .pop guard => h.under guard .task fun r capacity => r.pop capacity
  | .state guard =>
    h.under guard (fun (window, occupied, empty) => .state window occupied empty)
      fun r capacity => .ok ((r.free capacity, r.occupied capacity, r.isEmpty capacity), r)
  | .contents guard => h.under guard .tasks fun r capacity => (r.contents capacity).map (·, r)
  | .poke path field value =>
    (.done, h.modifyAt path fun r => { r with header := r.header.set field value })
  | .pokeSlot path index field value =>
    (.done, h.modifyAt path fun r =>
      { r with slots := r.slots.insert index ((r.slot index).set field value) })
  | .pokeName path index octets =>
    (.done, h.modifyAt path fun r =>
      { r with slots := r.slots.insert index ((r.slot index).setName octets) })
  | .inspect path => (.memory (h.regionAt? path), h)
  | .exists path => (.flag (h.tree.holds path), h)
  | .writeZeros path length =>
    match h.rewind path with
    | .ok (file, h) => (.done, h.setRegion file (.zeros length.toUInt64))
    | .error _ => (.done, h)
  | .makeDirectory path =>
    match h.tree.makeDirectory (FileTree.splitPath path) with
    | .ok tree => (.done, { h with tree })
    | .error _ => (.done, h)

end Host

end RealTime
