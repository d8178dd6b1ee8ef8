import DisastrOS.Files
import DisastrOS.ListSafety

/-!
# Shutdown

`internal_shutdown` takes every process out of `ready_list` and then every process out of
`waiting_list`, and sends all but the first two of the system to the code that exits. A process that
waited is put on `ready_list` then. A process that was ready is put on no list any more, and the
timers of those that slept stay in `timer_list`. So no process is lost exactly when there is nobody
ready but those two, and the timers are theirs (`losesNoProcess_iff`).
-/

set_option autoImplicit false
set_option relaxedAutoImplicit false

namespace DisastrOS

open LinkedLists
open Function (update)

variable {k k' : Kernel} {nodes : PcbList → List Addr}

namespace Kernel

/-! ### The two loops -/

/-- The process is the init process or the clock process, which a shutdown spares. -/
def Exempt (k : Kernel) (p : Addr) : Prop := k.pcbs.pid p = 0 ∨ k.pcbs.pid p = 1

instance (p : Addr) : Decidable (k.Exempt p) := inferInstanceAs (Decidable (_ ∨ _))

/-- The sequences after a loop over list `i` that has `todo` to go and has put `done` back: those
that are exempt follow `done`, and if the list is `waiting_list`, the others go to the end of
`ready_list`. -/
def buriedNodes (k : Kernel) (nodes : PcbList → List Addr) (i : PcbList) (todo done : List Addr) :
    PcbList → List Addr :=
  let kept := update nodes i (done ++ todo.filter fun p ↦ k.Exempt p)
  if i = .waiting then update kept .ready (nodes .ready ++ todo.filter fun p ↦ ¬ k.Exempt p)
  else kept

/-- What a turn of the loop does with the process it has popped. -/
def bury (k : Kernel) (i : PcbList) (p : Addr) : Kernel :=
  let popped := k.detachPcb i (some p)
  if k.Exempt p then popped.insertPcb i (popped.lists i).last (some p)
  else if i = .waiting then
    (popped.setContext p .graveyard).insertPcb .ready (popped.lists .ready).last (some p)
  else popped.setContext p .graveyard

theorem buryProcesses_succ (i : PcbList) (turns : ℕ) {p : Addr} (hp : (k.lists i).first = some p) :
    buryProcesses i (turns + 1) k = buryProcesses i turns (k.bury i p) := by
  rw [buryProcesses, hp, Option.bind_eq_bind, Option.bind_some]
  by_cases hexempt : k.Exempt p
  · have hpid : (k.detachPcb i (some p)).pcbs.pid p = 0 ∨ (k.detachPcb i (some p)).pcbs.pid p = 1 :=
      hexempt
    simp only [bury, hexempt, hpid, if_true]
  · have hpid : ¬ ((k.detachPcb i (some p)).pcbs.pid p = 0 ∨
        (k.detachPcb i (some p)).pcbs.pid p = 1) := hexempt
    simp only [bury, hexempt, hpid, if_false]
    rfl

theorem bury_eq (k : Kernel) (i : PcbList) (p : Addr) : k.bury i p =
    { k with
      pcbs := { k.pcbs with
        list := (k.bury i p).pcbs.list
        cpuState := if k.Exempt p then k.pcbs.cpuState else update k.pcbs.cpuState p .graveyard }
      lists := (k.bury i p).lists } := by
  simp only [bury]
  split_ifs <;> rfl

/-- One turn of a loop. -/
theorem threads_bury (h : Threads k.pcbs.list k.lists nodes) (i : PcbList) {p : Addr}
    {rest : List Addr} (hi : nodes i = p :: rest) :
    Threads (k.bury i p).pcbs.list (k.bury i p).lists
      (if k.Exempt p then update nodes i (rest ++ [p])
      else if i = .waiting then update (update nodes .waiting rest) .ready (nodes .ready ++ [p])
      else update nodes i rest) := by
  have hp : p ∈ nodes i := hi ▸ List.mem_cons_self
  have hdetached := h.listDetach hp
  have hgone := h.notMem_erase hp
  rw [hi, List.erase_cons_head] at hdetached hgone
  simp only [bury]
  split_ifs with hexempt hwaiting
  · have hinserted := hdetached.listInsert_last i hgone
    rw [Function.update_self i rest nodes, Function.update_idem _ _ nodes] at hinserted
    exact hinserted
  · subst hwaiting
    exact hdetached.listInsert_last .ready hgone
  · exact hdetached

/-- A turn of the loop and then the others. -/
theorem buriedNodes_cons (i : PcbList) {p : Addr} {todo done : List Addr}
    (hpid : k'.pcbs.pid = k.pcbs.pid) (hi : nodes i = p :: (todo ++ done)) :
    k'.buriedNodes (if k.Exempt p then update nodes i (todo ++ done ++ [p])
        else if i = .waiting then
          update (update nodes .waiting (todo ++ done)) .ready (nodes .ready ++ [p])
        else update nodes i (todo ++ done)) i todo
        (if k.Exempt p then done ++ [p] else done) =
      k.buriedNodes nodes i (p :: todo) done := by
  have hsame : k'.Exempt = k.Exempt := by
    funext q
    rw [Exempt, Exempt, hpid]
  unfold buriedNodes
  simp only [hsame]
  by_cases hexempt : k.Exempt p
  · cases i <;> (funext l; cases l <;> simp [hexempt])
  · cases i <;> (funext l; cases l <;> simp [hexempt])

/-- A loop goes through the whole list once. -/
theorem buryProcesses_spec (i : PcbList) {todo : List Addr} (done : List Addr)
    (h : Threads k.pcbs.list k.lists nodes) (hi : nodes i = todo ++ done) :
    ∃ k', buryProcesses i todo.length k = some k' ∧
      Threads k'.pcbs.list k'.lists (k.buriedNodes nodes i todo done) ∧
      k'.pcbs.cpuState =
        (fun q ↦ if q ∈ todo ∧ ¬ k.Exempt q then .graveyard else k.pcbs.cpuState q) ∧
      k' = { k with
        pcbs := { k.pcbs with list := k'.pcbs.list, cpuState := k'.pcbs.cpuState }
        lists := k'.lists } := by
  induction todo generalizing k nodes done with
  | nil =>
    refine ⟨k, rfl, ?_, by simp, rfl⟩
    have hsame : k.buriedNodes nodes i [] done = nodes := by
      rw [List.nil_append] at hi
      unfold buriedNodes
      simp [← hi]
    rwa [hsame]
  | cons p todo ih =>
    have hfirst : (k.lists i).first = some p := by
      rw [(h.represents i).first, hi]
      rfl
    have hframe := bury_eq k i p
    have hpid : (k.bury i p).pcbs.pid = k.pcbs.pid := by rw [hframe]
    have hexempt : (k.bury i p).Exempt = k.Exempt := by
      funext q
      rw [Exempt, Exempt, hpid]
    have hcons : nodes i = p :: (todo ++ done) := hi
    have hturn := threads_bury h i hcons
    have hnodes := buriedNodes_cons i hpid hcons
    obtain ⟨k', hrest, hthreads, hcontexts, hframe'⟩ :=
      ih (if k.Exempt p then done ++ [p] else done) hturn (by
        by_cases hspared : k.Exempt p
        · simp [hspared]
        · cases i <;> simp [hspared])
    rw [hnodes] at hthreads
    refine ⟨k', ?_, hthreads, ?_, ?_⟩
    · rw [List.length_cons, buryProcesses_succ i _ hfirst, hrest]
    · rw [hcontexts]
      funext q
      have hbefore : (k.bury i p).pcbs.cpuState q =
          if q = p ∧ ¬ k.Exempt q then .graveyard else k.pcbs.cpuState q := by
        rw [hframe]
        by_cases hq : q = p
        · subst hq
          by_cases hspared : k.Exempt q <;> simp [hspared]
        · by_cases hspared : k.Exempt p <;> simp [hspared, hq]
      simp only [hexempt, hbefore, List.mem_cons]
      split_ifs <;> tauto
    · rw [hframe', hframe]

/-! ### The cleanup of the resources -/

/-- The inner loop takes all pointers of the resource out. -/
theorem releasePointers_spec {ptrs : Addr → List Addr} (res : Addr) {xs : List Addr}
    (h : Family k.descriptorPtrs.list k.resources.descriptorsPtrs ptrs) (hres : ptrs res = xs) :
    ∃ k', releasePointers res xs.length k = some k' ∧
      Family k'.descriptorPtrs.list k'.resources.descriptorsPtrs (update ptrs res []) ∧
      k' = { k with
        resources := { k.resources with descriptorsPtrs := k'.resources.descriptorsPtrs }
        descriptors := k'.descriptors
        descriptorPtrs := k'.descriptorPtrs } := by
  induction xs generalizing k ptrs with
  | nil =>
    refine ⟨k, rfl, ?_, rfl⟩
    rwa [← hres, Function.update_eq_self]
  | cons x xs ih =>
    have hfirst : (k.resources.descriptorsPtrs res).first = some x := by
      rw [(h.represents res).first, hres]
      rfl
    have hx : x ∈ ptrs res := hres ▸ List.mem_cons_self
    have hdetached := h.listDetach hx
    rw [hres, List.erase_cons_head] at hdetached
    obtain ⟨k', hrest, hfamily, hframe⟩ := ih
      (k := ((k.detachDescriptorPtr res (some x)).descriptorFree
        (k.descriptorPtrs.descriptor x)).descriptorPtrFree x)
      hdetached (Function.update_self res xs ptrs)
    refine ⟨k', ?_, ?_, hframe⟩
    · rw [List.length_cons, releasePointers, hfirst]
      exact hrest
    · rwa [Function.update_idem] at hfamily

/-- The cleanup ends, with all resources out of the list. -/
theorem releaseResources_spec {ptrs : Addr → List Addr} {ress : List Addr}
    (h : Family k.descriptorPtrs.list k.resources.descriptorsPtrs ptrs)
    (hress : Represents k.resources.list k.resourcesList ress) :
    ∃ k', releaseResources ress.length k = some k' ∧
      k' = { k with
        resources := k'.resources
        descriptors := k'.descriptors
        descriptorPtrs := k'.descriptorPtrs
        resourcesList := k'.resourcesList } := by
  induction ress generalizing k ptrs with
  | nil => exact ⟨k, rfl, rfl⟩
  | cons r ress ih =>
    have hfirst : k.resourcesList.first = some r := hress.first
    have hdetached := hress.listDetach List.mem_cons_self
    rw [List.erase_cons_head] at hdetached
    have hsize : (k.resources.descriptorsPtrs r).size.toNat = (ptrs r).length := by
      rw [(h.represents r).size, Int.toNat_natCast]
    obtain ⟨k₁, hpointers, hfamily, hframe₁⟩ :=
      releasePointers_spec (k := k.detachResource (some r)) r h rfl
    have hempty := hfamily.represents r
    rw [Function.update_self] at hempty
    have hfree : k₁.resourceFree r =
        some { k₁ with resources.allocator := (k₁.resources.allocator.releaseBlock r).2 } := by
      have hfirst₁ : (k₁.resources.descriptorsPtrs r).first = none := hempty.first
      have hlast₁ : (k₁.resources.descriptorsPtrs r).last = none := hempty.last
      rw [resourceFree, hfirst₁, hlast₁]
      rfl
    have hress₁ : Represents k₁.resources.list k₁.resourcesList ress := by
      rw [hframe₁]
      exact hdetached
    obtain ⟨k', hrest, hframe⟩ := ih
      (k := { k₁ with resources.allocator := (k₁.resources.allocator.releaseBlock r).2 })
      hfamily hress₁
    refine ⟨k', ?_, ?_⟩
    · rw [List.length_cons, releaseResources, hfirst]
      refine Option.bind_eq_some_iff.mpr ⟨r, rfl, Option.bind_eq_some_iff.mpr ⟨k₁, ?_, ?_⟩⟩
      · exact hsize ▸ hpointers
      · exact Option.bind_eq_some_iff.mpr ⟨_, hfree, hrest⟩
    · rw [hframe, hframe₁]
      rfl

/-! ### The whole of the call -/

/-- `internal_shutdown` up to the end of its loops. -/
def emptyLists (k : Kernel) : Option Kernel := do
  let k := { k with shutdownNow := true }
  let k ← releaseResources k.resourcesList.size.toNat k
  let k ← buryProcesses .ready (k.lists .ready).size.toNat k
  buryProcesses .waiting (k.lists .waiting).size.toNat k

/-- The rest of it, by process `p`, with as many processes found in the two lists. -/
def leaveShutdown (k : Kernel) (p : Addr) (processes : ℤ) : Option Kernel :=
  if 0 < processes - 2 then do
    let k ← k.internalSleep shutdownWaitingCycles
    let _ ← k.running
    some (k.setContext p .halting)
  else some { k with running := none }

/-- The state in which a shutdown has gone through the two lists, before it yields. -/
def shutdownPoint (k : Kernel) : Option Kernel := do
  let running ← k.running
  emptyLists { k with pcbs.syscall := update k.pcbs.syscall running (some .shutdown) }

/-- The sequences then: the processes that waited are ready. -/
def emptiedNodes (k : Kernel) (nodes : PcbList → List Addr) : PcbList → List Addr
  | .ready => ((nodes .ready).filter fun p ↦ k.Exempt p) ++
      (nodes .waiting).filter fun p ↦ ¬ k.Exempt p
  | .waiting => (nodes .waiting).filter fun p ↦ k.Exempt p
  | .zombie => nodes .zombie

theorem buriedNodes_all (hpid : k'.pcbs.pid = k.pcbs.pid) (nodes : PcbList → List Addr) :
    k'.buriedNodes (k.buriedNodes nodes .ready (nodes .ready) []) .waiting (nodes .waiting) [] =
      k.emptiedNodes nodes := by
  have hsame : k'.Exempt = k.Exempt := by
    funext q
    rw [Exempt, Exempt, hpid]
  unfold buriedNodes
  funext l
  cases l <;> simp [hsame, emptiedNodes]

theorem internalShutdown_first {p : Addr} (hrunning : k.running = some p)
    (hfirst : k.shutdownNow = false) :
    internalShutdown k =
      (releaseResources k.resourcesList.size.toNat { k with shutdownNow := true }).bind fun k₀ ↦
        (buryProcesses .ready (k₀.lists .ready).size.toNat k₀).bind fun k₂ ↦
          (buryProcesses .waiting (k₂.lists .waiting).size.toNat k₂).bind fun k₁ ↦
            k₁.leaveShutdown p ((k₀.lists .ready).size + (k₂.lists .waiting).size) := by
  unfold internalShutdown
  refine Eq.trans (congrArg (fun o ↦ Option.bind o _) hrunning) ?_
  exact if_neg (Bool.eq_false_iff.mp hfirst)

/-- What the first shutdown does. -/
theorem emptyLists_spec {ptrs : Addr → List Addr} {ress : List Addr} {p : Addr}
    (h : Threads k.pcbs.list k.lists nodes)
    (hptrs : Family k.descriptorPtrs.list k.resources.descriptorsPtrs ptrs)
    (hress : Represents k.resources.list k.resourcesList ress) (hrunning : k.running = some p)
    (hfirst : k.shutdownNow = false) :
    ∃ k₁, emptyLists k = some k₁ ∧
      internalShutdown k =
        k₁.leaveShutdown p ((k.lists .ready).size + (k.lists .waiting).size) ∧
      Threads k₁.pcbs.list k₁.lists (k.emptiedNodes nodes) ∧
      k₁.pcbs.cpuState = (fun q ↦ if (q ∈ nodes .ready ∨ q ∈ nodes .waiting) ∧ ¬ k.Exempt q
        then .graveyard else k.pcbs.cpuState q) ∧
      k₁.timerItems = k.timerItems ∧ k₁.timerList = k.timerList := by
  obtain ⟨k₀, hrelease, hframe₀⟩ :=
    releaseResources_spec (k := { k with shutdownNow := true }) hptrs hress
  have h₀ : Threads k₀.pcbs.list k₀.lists nodes := by
    rw [hframe₀]
    exact h
  obtain ⟨k₂, hready, h₂, hcontexts₂, hframe₂⟩ :=
    buryProcesses_spec .ready [] h₀ (List.append_nil _).symm
  have hwaiting :
      k₀.buriedNodes nodes .ready (nodes .ready) [] .waiting = nodes .waiting ++ [] := by
    unfold buriedNodes
    simp
  obtain ⟨k₁, hburied, h₁, hcontexts₁, hframe₁⟩ := buryProcesses_spec .waiting [] h₂ hwaiting
  have hpid₀ : k₀.pcbs.pid = k.pcbs.pid := by rw [hframe₀]
  have hpid₂ : k₂.pcbs.pid = k₀.pcbs.pid := by rw [hframe₂]
  have hexempt₀ : k₀.Exempt = k.Exempt := by
    funext q
    rw [Exempt, Exempt, hpid₀]
  have hexempt₂ : k₂.Exempt = k.Exempt := by
    funext q
    rw [Exempt, Exempt, hpid₂, hpid₀]
  have hress' : k.resourcesList.size.toNat = ress.length := by rw [hress.size, Int.toNat_natCast]
  have hsizeR : (k₀.lists .ready).size = (k.lists .ready).size := by rw [hframe₀]
  have hsizeR' : (k.lists .ready).size.toNat = (nodes .ready).length := by
    rw [(h.represents .ready).size, Int.toNat_natCast]
  have hsizeW : (k₂.lists .waiting).size = (k.lists .waiting).size := by
    rw [(h₂.represents .waiting).size, hwaiting, List.append_nil, (h.represents .waiting).size]
  have hsizeW' : (k.lists .waiting).size.toNat = (nodes .waiting).length := by
    rw [(h.represents .waiting).size, Int.toNat_natCast]
  refine ⟨k₁, ?_, ?_, ?_, ?_, ?_, ?_⟩
  · refine Option.bind_eq_some_iff.mpr ⟨k₀, hress' ▸ hrelease, ?_⟩
    refine Option.bind_eq_some_iff.mpr ⟨k₂, ?_, ?_⟩
    · rw [hsizeR, hsizeR', hready]
    · rw [hsizeW, hsizeW', hburied]
  · rw [internalShutdown_first hrunning hfirst, hress', hrelease, Option.bind_some, hsizeR,
      hsizeR', hready, Option.bind_some, hsizeW, hsizeW', hburied, Option.bind_some]
  · rw [buriedNodes_all hpid₂] at h₁
    have hsame : k₀.emptiedNodes nodes = k.emptiedNodes nodes := by
      funext l
      cases l <;> simp [emptiedNodes, hexempt₀]
    rwa [hsame] at h₁
  · have hcpu : k₀.pcbs.cpuState = k.pcbs.cpuState := by rw [hframe₀]
    rw [hcontexts₁, hcontexts₂]
    funext q
    simp only [hexempt₂, hexempt₀, hcpu]
    split_ifs <;> tauto
  · rw [hframe₁, hframe₂, hframe₀]
  · rw [hframe₁, hframe₂, hframe₀]

/-! ### Who is lost -/

/-- Between the state in which a shutdown is called and the one in which it has gone through the
lists: each process that was ready or waiting, but for the exempt ones, is in `ready_list` once, and
in no other list, and stands at its exit; the exempt ones are where they were; and every timer is of
a process in `waiting_list`. -/
structure LosesNoProcess (k k₁ : Kernel) : Prop where
  buried : ∀ q, q ∈ k.pcbNodes .ready ∨ q ∈ k.pcbNodes .waiting → ¬ k.Exempt q →
    (k₁.pcbNodes .ready).count q = 1 ∧ k₁.pcbs.cpuState q = .graveyard ∧
      ∀ l, l ≠ .ready → q ∉ k₁.pcbNodes l
  spared : ∀ l, ∀ q ∈ k.pcbNodes l, k.Exempt q → q ∈ k₁.pcbNodes l
  sleepers : ∀ t ∈ k₁.timerNodes, k₁.timerItems.pcb t ∈ k₁.pcbNodes .waiting

/-- Nobody is ready but the exempt processes, and every timer is of an exempt process that waits. -/
def ShutdownKeeps (k : Kernel) : Prop :=
  (∀ q ∈ k.pcbNodes .ready, k.Exempt q) ∧
    ∀ t ∈ k.timerNodes, k.timerItems.pcb t ∈ k.pcbNodes .waiting ∧ k.Exempt (k.timerItems.pcb t)

instance : Decidable k.ShutdownKeeps := inferInstanceAs (Decidable (_ ∧ _))

variable {k₁ : Kernel}

/-- A process that was ready is lost unless it is exempt. -/
theorem buried_iff (hnodes : k₁.pcbNodes = k.emptiedNodes k.pcbNodes)
    (h : Threads k.pcbs.list k.lists k.pcbNodes)
    (h₁ : Threads k₁.pcbs.list k₁.lists k₁.pcbNodes)
    (hcontexts : k₁.pcbs.cpuState = fun q ↦
      if (q ∈ k.pcbNodes .ready ∨ q ∈ k.pcbNodes .waiting) ∧ ¬ k.Exempt q then .graveyard
      else k.pcbs.cpuState q) :
    (∀ q, q ∈ k.pcbNodes .ready ∨ q ∈ k.pcbNodes .waiting → ¬ k.Exempt q →
      (k₁.pcbNodes .ready).count q = 1 ∧ k₁.pcbs.cpuState q = .graveyard ∧
        ∀ l, l ≠ .ready → q ∉ k₁.pcbNodes l) ↔
      ∀ q ∈ k.pcbNodes .ready, k.Exempt q := by
  have hmem : ∀ q, q ∈ k₁.pcbNodes .ready ↔
      q ∈ k.pcbNodes .ready ∧ k.Exempt q ∨ q ∈ k.pcbNodes .waiting ∧ ¬ k.Exempt q := by
    intro q
    simp [hnodes, emptiedNodes]
  constructor
  · intro hburied q hready
    by_contra hexempt
    have hcount := (hburied q (Or.inl hready) hexempt).1
    have hlisted : q ∈ k₁.pcbNodes .ready := List.count_pos_iff.mp (by omega)
    rcases (hmem q).mp hlisted with ⟨-, hspared⟩ | ⟨hwaiting, -⟩
    · exact hexempt hspared
    · exact absurd (h.disjoint .ready .waiting q hready hwaiting) (by decide)
  · intro hready q hlisted hexempt
    have hwaiting : q ∈ k.pcbNodes .waiting :=
      hlisted.resolve_left fun hq ↦ hexempt (hready q hq)
    have hq : q ∈ k₁.pcbNodes .ready := (hmem q).mpr (Or.inr ⟨hwaiting, hexempt⟩)
    refine ⟨List.count_eq_one_of_mem (h₁.represents .ready).nodup hq, ?_, fun l hl hmem ↦ ?_⟩
    · rw [hcontexts]
      exact if_pos ⟨hlisted, hexempt⟩
    · exact hl (h₁.disjoint l .ready q hmem hq)

/-- The first shutdown gets through the lists, and loses nobody exactly under the condition. -/
theorem Ordered.shutdownPoint (h : k.Ordered) (hok : k.files.Ok) {p : Addr}
    (hrunning : k.running = some p) (hfirst : k.shutdownNow = false) :
    ∃ k₁, k.shutdownPoint = some k₁ ∧
      disastrOSSyscall .shutdown k =
        k₁.leaveShutdown p ((k.lists .ready).size + (k.lists .waiting).size) ∧
      (k.LosesNoProcess k₁ ↔ k.ShutdownKeeps) := by
  obtain ⟨k₁, hempty, hcall, hthreads, hcontexts, hitems, hlist⟩ := emptyLists_spec
    (k := { k with pcbs.syscall := update k.pcbs.syscall p (some .shutdown) })
    h.scheduled.threads hok.pointerLists hok.resourceList hrunning hfirst
  have hnodes : k₁.pcbNodes = k.emptiedNodes k.pcbNodes :=
    funext fun l ↦ (hthreads.represents l).toList_eq
  have htimers : k₁.timerNodes = k.timerNodes := by
    rw [timerNodes, timerNodes, hitems, hlist]
  refine ⟨k₁, Option.bind_eq_some_iff.mpr ⟨p, hrunning, hempty⟩, ?_, ?_⟩
  · exact (congrArg (fun o ↦ Option.bind o _) hrunning).trans hcall
  have hburied := buried_iff hnodes h.scheduled.threads (by rw [hnodes]; exact hthreads) hcontexts
  have hspared : ∀ l, ∀ q ∈ k.pcbNodes l, k.Exempt q → q ∈ k₁.pcbNodes l := by
    intro l q hq hexempt
    rw [hnodes]
    cases l with
    | ready => exact List.mem_append_left _ (List.mem_filter.mpr ⟨hq, decide_eq_true hexempt⟩)
    | waiting => exact List.mem_filter.mpr ⟨hq, decide_eq_true hexempt⟩
    | zombie => exact hq
  have hsleepers : (∀ t ∈ k₁.timerNodes, k₁.timerItems.pcb t ∈ k₁.pcbNodes .waiting) ↔
      ∀ t ∈ k.timerNodes, k.timerItems.pcb t ∈ k.pcbNodes .waiting ∧
        k.Exempt (k.timerItems.pcb t) := by
    have hpcb : k₁.timerItems.pcb = k.timerItems.pcb := by rw [hitems]
    simp [htimers, hpcb, hnodes, emptiedNodes]
  constructor
  · intro hloses
    exact ⟨hburied.mp hloses.buried, hsleepers.mp hloses.sleepers⟩
  · intro hkeeps
    exact ⟨hburied.mpr hkeeps.1, hspared, hsleepers.mpr hkeeps.2⟩

end Kernel

/-- A run that keeps the lists in order gets to a state with both tables in order. -/
theorem Layout.ordered_files_of_safe (layout : Layout) {actions : List Action}
    (hsafe : Runs.Meets Kernel.step Kernel.ListsSafe layout.boot actions)
    (hrun : Runs.run Kernel.step layout.boot actions = some k) : k.Ordered ∧ k.files.Ok := by
  have hinv : (∃ failed, k.ListsInv failed) ∧ k.files.Ok := by
    refine Runs.run_invariant (P := fun k ↦ (∃ failed, k.ListsInv failed) ∧ k.files.Ok) ?_
      ⟨⟨false, layout.boot_listsInv⟩, layout.boot_filesOk⟩ hsafe hrun
    rintro k a k' ⟨⟨failed, h⟩, hok⟩ hlists hstep
    exact ⟨⟨_, h.step hlists hstep⟩, Kernel.filesOk_step hok hlists.no_shutdown hstep⟩
  obtain ⟨⟨failed, h⟩, hok⟩ := hinv
  exact ⟨h.ordered, hok⟩

/-- In every run that keeps the lists in order, the first shutdown loses no process exactly if nobody
is ready but processes 0 and 1, and no other process sleeps. -/
theorem losesNoProcess_iff (layout : Layout) {actions : List Action} {k : Kernel} {p : Addr}
    (hsafe : Runs.Meets Kernel.step Kernel.ListsSafe layout.boot actions)
    (hrun : Runs.run Kernel.step layout.boot actions = some k) (hrunning : k.running = some p)
    (huser : k.atUser = true) (hfirst : k.shutdownNow = false) :
    ∃ k₁, k.shutdownPoint = some k₁ ∧
      k.step (.syscall .shutdown) =
        k₁.leaveShutdown p ((k.lists .ready).size + (k.lists .waiting).size) ∧
      (k.LosesNoProcess k₁ ↔ k.ShutdownKeeps) := by
  obtain ⟨hordered, hok⟩ := layout.ordered_files_of_safe hsafe hrun
  obtain ⟨k₁, hpoint, hcall, hiff⟩ := hordered.shutdownPoint hok hrunning hfirst
  refine ⟨k₁, hpoint, ?_, hiff⟩
  rw [← hcall]
  exact if_pos huser

/-- Four processes; the first and the third wait for a child, the second is ready, and the last one
runs. -/
def parentsWait : List Action :=
  [.start, .syscall .spawn, .syscall .spawn, .syscall (.wait 0 none), .syscall .preempt,
    .syscall .spawn, .syscall (.wait 0 none), .syscall .preempt]

/-- The last process shuts down, and the third one gets its turn to exit. -/
theorem losesNoProcess_iff_parentsWait : ∃ k p k₁,
    Runs.run Kernel.step sampleLayout.boot parentsWait = some k ∧ k.running = some p ∧
      (∃ q ∈ k.pcbNodes .waiting, ¬ k.Exempt q) ∧ k.shutdownPoint = some k₁ ∧
      k.LosesNoProcess k₁ := by
  have hends : ((Runs.run Kernel.step sampleLayout.boot parentsWait).any fun k ↦
      decide (k.running = some 0x40CD98 ∧ (∃ q ∈ k.pcbNodes .waiting, ¬ k.Exempt q) ∧
        k.atUser = true ∧ k.shutdownNow = false ∧ k.ShutdownKeeps)) = true := by decide +kernel
  obtain ⟨k, hk, hstate⟩ := (Option.any_eq_true _ _).mp hends
  obtain ⟨hrunning, hwaits, huser, hfirst, hkeeps⟩ := of_decide_eq_true hstate
  obtain ⟨k₁, hpoint, -, hiff⟩ :=
    losesNoProcess_iff sampleLayout (by decide +kernel) hk hrunning huser hfirst
  exact ⟨k, 0x40CD98, k₁, hk, hrunning, hwaits, hpoint, hiff.mpr hkeeps⟩

/-- The first process spawns two others, of which the second is lost when it shuts down. -/
theorem spawnedTwo_not_losesNoProcess : ∃ k k₁,
    Runs.run Kernel.step sampleLayout.boot [.start, .syscall .spawn, .syscall .spawn] = some k ∧
      k.atUser = true ∧ k.shutdownNow = false ∧ k.shutdownPoint = some k₁ ∧
      ¬ k.LosesNoProcess k₁ := by
  have hends : ((Runs.run Kernel.step sampleLayout.boot
      [.start, .syscall .spawn, .syscall .spawn]).any fun k ↦
        decide (k.running = some 0x400000 ∧ k.atUser = true ∧ k.shutdownNow = false ∧
          ¬ k.ShutdownKeeps)) = true := by decide +kernel
  obtain ⟨k, hk, hstate⟩ := (Option.any_eq_true _ _).mp hends
  obtain ⟨hrunning, huser, hfirst, hkeeps⟩ := of_decide_eq_true hstate
  obtain ⟨hordered, hok⟩ := sampleLayout.ordered_files_of_safe (by decide +kernel) hk
  obtain ⟨k₁, hpoint, -, hiff⟩ := hordered.shutdownPoint hok hrunning hfirst
  exact ⟨k, k₁, hk, huser, hfirst, hpoint, fun hloses ↦ hkeeps (hiff.mp hloses)⟩

end DisastrOS
