import JourneyPlanner.Layer.Build

/-!
The current snapshot of a network that changes. A search takes the snapshot that is current when it
asks and keeps it; installing another one does not touch those taken before. A snapshot that cannot
be built is not installed.
-/

namespace JourneyPlanner

/-- A layer with the number of its installation, which tells snapshots apart. -/
structure Snapshot where
  number : Nat
  layer : Layer

structure LayerStore where
  current : Snapshot
  /-- Above the number of each snapshot given so far. -/
  next : Nat

inductive StoreError where
  | build (error : BuildError)

namespace StoreError

def message : StoreError → String
  | build _ => "failed to build a new transit layer"

def causes : StoreError → List String
  | build error => error.message :: error.causes

end StoreError

namespace LayerStore

def ofLayer (layer : Layer) : LayerStore :=
  ⟨⟨0, layer⟩, 1⟩

def ofNetwork (network : Network) : Except BuildError LayerStore :=
  (Layer.build network).map ofLayer

def snapshot (s : LayerStore) : Snapshot :=
  s.current

def replace (s : LayerStore) (snapshot : Snapshot) : LayerStore :=
  { s with current := snapshot }

/-- Installs a snapshot of a network and gives it back. -/
def rebuild (s : LayerStore) (network : Network) : Except StoreError (Snapshot × LayerStore) :=
  match Layer.build network with
  | .error error => .error (.build error)
  | .ok layer =>
      let snapshot := ⟨s.next, layer⟩
      .ok (snapshot, ⟨snapshot, s.next + 1⟩)

end LayerStore

end JourneyPlanner
