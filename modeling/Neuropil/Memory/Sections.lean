import Neuropil.Lib.Fault

namespace Neuropil.Memory.Sections

inductive Fault
  -- "can only delete unused memory objects"
  | assertion
  | useAfterFree
deriving DecidableEq, Repr

structure Itemconf where
  in_use : Bool
  needs_refresh : Bool
  ref_count : UInt32
  persistent : Bool

/-- How a type of objects was registered. The loop of np_memory_register_type, which makes the
blocks, ended after the given number of rounds. -/
structure ContainerConf where
  count_of_items_per_block : UInt32
  min_count_of_items : UInt32
  -- `on_refresh_space != NULL`
  has_refresh_space : Bool
  rounds : ℕ
  running : ∀ i < rounds, count_of_items_per_block * UInt32.ofNat i < min_count_of_items
  ended : min_count_of_items ≤ count_of_items_per_block * UInt32.ofNat rounds

/-- np_memory_container_t with its items in memory, known by their addresses. The items that callers
have from np_memory_new, and not given to np_memory_free, are `held`. -/
structure Container where
  free_items : List ℕ
  refreshed_items : List ℕ
  total_items : List ℕ
  current_in_use : UInt32
  items : ℕ → Option Itemconf
  held : List ℕ

/-- Where a call of np_memory_new or np_memory_free stands, with the item in its hands. Each step is
one locked section. -/
inductive Call
  -- np_memory_new at the head of its loop, with the lock of the refreshed items to take
  | search
  -- it has the lock, and there was no refreshed item
  | searchFree
  -- it has the lock; the number of items that __np_memory_space_increase still has to make
  | grow (increase_mod : UInt8) (left : ℕ)
  | listNew (item : ℕ) (increase_mod : UInt8) (left : ℕ)
  | refresh (item : ℕ)
  -- it has released the lock
  | take (item : ℕ)
  | count (item : ℕ)
  -- np_memory_free before it looks at its item, after it, and with the item in a list
  | release (item : ℕ)
  | list (item : ℕ)
  | uncount
deriving DecidableEq

/-- Where _np_memory_job_memory_management stands, with the items in its hands. -/
inductive Job
  | idle
  | decrease
  -- the items that __np_memory_space_decrease may still delete
  | shrink (left : ℕ)
  | shrinkRefreshed (left : ℕ)
  | check (item : ℕ) (left : ℕ)
  | delete (item : ℕ) (left : ℕ)
  | measure
  | collect (list_size : ℕ)
  | renew (list : List ℕ)
  | relist (item : ℕ) (list : List ℕ)
deriving DecidableEq

structure State where
  container : Container
  calls : List Call
  job : Job

def access (m : Container) (item : ℕ) : Except Fault Itemconf :=
  match m.items item with
  | some conf => .ok conf
  | none => .error .useAfterFree

def setItem (m : Container) (item : ℕ) (conf : Itemconf) : Container :=
  { m with items := Function.update m.items item (some conf) }

def refreshSpace (m : Container) (item : ℕ) : Except Fault Container := do
  let conf ← access m item
  if conf.in_use = false ∧ conf.needs_refresh = true then
    return setItem m item { conf with ref_count := 0, persistent := false, needs_refresh := false }
  else return m

def Call.holdsRefreshed : Call → Bool
  | .searchFree | .grow _ _ | .listNew _ _ _ | .refresh _ => true
  | _ => false

variable (conf : ContainerConf)

/-- The next locked section of a call, which waits while another one has its lock. `address` is what
malloc answers if asked for a new item. -/
def callSection (locked : Bool) (address : ℕ) (m : Container) :
    Call → Except Fault (Container × List Call)
  | .search =>
    if locked then .ok (m, [.search])
    else match m.refreshed_items with
      | item :: rest => .ok ({ m with refreshed_items := rest }, [.take item])
      | [] => .ok (m, [.searchFree])
  | .searchFree =>
    match m.free_items with
    | item :: rest => .ok ({ m with free_items := rest }, [.refresh item])
    | [] => .ok (m, [.grow 2 1])
  | .grow increase_mod 0 =>
    match m.free_items with
    | item :: rest => .ok ({ m with free_items := rest }, [.refresh item])
    | [] => .ok (m, [.grow (increase_mod + 1) increase_mod.toNat])
  | .grow increase_mod (left + 1) =>
    match m.items address with
    -- malloc does not answer with an item that has not been freed
    | some _ => .ok (m, [.grow increase_mod (left + 1)])
    | none =>
      .ok ({ setItem m address ⟨false, true, 0, false⟩ with
        total_items := m.total_items ++ [address] }, [.listNew address increase_mod left])
  | .listNew item increase_mod left =>
    .ok ({ m with free_items := m.free_items ++ [item] }, [.grow increase_mod left])
  | .refresh item => do
    let m ← refreshSpace m item
    return (m, [.take item])
  | .take item => do
    let conf ← access m item
    if conf.in_use = false then return (setItem m item { conf with in_use := true }, [.count item])
    else return (m, [.search])
  | .count item =>
    .ok ({ m with current_in_use := m.current_in_use + 1, held := item :: m.held }, [])
  | .release item => do
    let c ← access m item
    if (c.ref_count = 0 ∧ c.persistent = false) ∧ c.in_use = true then
      return (setItem m item { c with
        in_use := false, needs_refresh := conf.has_refresh_space || c.needs_refresh }, [.list item])
    -- the item is left to the caller
    else return ({ m with held := item :: m.held }, [])
  | .list item =>
    if conf.has_refresh_space then
      .ok ({ m with free_items := m.free_items ++ [item] }, [.uncount])
    else if locked then .ok (m, [.list item])
    else .ok ({ m with refreshed_items := m.refreshed_items ++ [item] }, [.uncount])
  | .uncount => .ok ({ m with current_in_use := m.current_in_use - 1 }, [])

/-- __np_memory_space_decrease_nessecary; `shrinking` is the test of the growth of the items, and
0.75 times a `uint32_t` is exact in a double. -/
def spaceDecreaseNessecary (m : Container) (shrinking : Bool) : Bool :=
  let total_free_space := UInt32.ofNat m.free_items.length + UInt32.ofNat m.refreshed_items.length
  let total_space_available := total_free_space + m.current_in_use
  decide (conf.min_count_of_items + conf.count_of_items_per_block ≤ total_space_available) &&
    (shrinking || decide (4 * m.current_in_use.toNat ≤ 3 * total_space_available.toNat))

def jobSection (locked shrinking : Bool) (m : Container) : Job → Except Fault (Container × Job)
  | .idle => if conf.has_refresh_space then .ok (m, .decrease) else .ok (m, .idle)
  | .decrease =>
    if locked then .ok (m, .decrease)
    else if spaceDecreaseNessecary conf m shrinking then
      .ok (m, .shrink conf.count_of_items_per_block.toNat)
    else .ok (m, .measure)
  | .shrink 0 => .ok (m, .measure)
  | .shrink (left + 1) =>
    match m.free_items with
    | item :: rest => .ok ({ m with free_items := rest }, .check item left)
    | [] => .ok (m, .shrinkRefreshed left)
  | .shrinkRefreshed left =>
    if locked then .ok (m, .shrinkRefreshed left)
    else match m.refreshed_items with
      | item :: rest => .ok ({ m with refreshed_items := rest }, .check item left)
      -- removed everything, lists are now empty
      | [] => .ok (m, .measure)
  | .check item left => do
    let conf ← access m item
    if conf.in_use = false then return (m, .delete item left) else .error .assertion
  | .delete item left =>
    .ok ({ m with
      total_items := m.total_items.erase item
      items := Function.update m.items item none }, .shrink left)
  | .measure =>
    if m.free_items.length = 0 then .ok (m, .idle) else .ok (m, .collect m.free_items.length)
  | .collect list_size =>
    .ok ({ m with free_items := m.free_items.drop list_size }, .renew (m.free_items.take list_size))
  | .renew [] => .ok (m, .idle)
  | .renew (item :: list) => do
    let m ← refreshSpace m item
    return (m, .relist item list)
  | .relist item list =>
    if locked then .ok (m, .relist item list)
    else .ok ({ m with refreshed_items := m.refreshed_items ++ [item] }, .renew list)

inductive Action
  | callNew
  -- only a caller that holds an item gives it back
  | callFree (item : ℕ)
  | proceed (call : ℕ) (address : ℕ)
  -- a caller changes the references to an item that it holds
  | reference (item : ℕ) (ref_count : UInt32) (persistent : Bool)
  | job (shrinking : Bool)

def State.locked (s : State) : Bool := s.calls.any Call.holdsRefreshed

def handle (s : State) : Action → Except Fault State
  | .callNew => .ok { s with calls := s.calls ++ [.search] }
  | .callFree item =>
    if item ∈ s.container.held then
      .ok { s with
        container := { s.container with held := s.container.held.erase item }
        calls := s.calls ++ [.release item] }
    else .ok s
  | .proceed i address =>
    match s.calls[i]? with
    | none => .ok s
    | some call => do
      let (container, next) ← callSection conf s.locked address s.container call
      return { s with
        container := container
        calls := s.calls.take i ++ next ++ s.calls.drop (i + 1) }
  | .reference item ref_count persistent =>
    if item ∈ s.container.held then do
      let c ← access s.container item
      return { s with
        container := setItem s.container item
          { c with ref_count := ref_count, persistent := persistent } }
    else .ok s
  | .job shrinking => do
    let (container, job) ← jobSection conf s.locked shrinking s.container s.job
    return { s with container := container, job := job }

def step (s : Except Fault State) (a : Action) : Except Fault State :=
  s >>= fun s => handle conf s a

def start : State :=
  let addresses := List.range (conf.count_of_items_per_block.toNat * conf.rounds)
  { container :=
      { free_items := addresses
        refreshed_items := []
        total_items := addresses
        current_in_use := 0
        items := fun item => if item ∈ addresses then some ⟨false, true, 0, false⟩ else none
        held := [] }
    calls := []
    job := .idle }

end Neuropil.Memory.Sections
