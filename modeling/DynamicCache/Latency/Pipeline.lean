import DynamicCache.Latency.Components
import DynamicCache.Lib.Memo

/-!
# The latency of an access (`LatencyModel/latency_model.rb`)

An access to the L3 cache goes through a list of components, each of which starts when
the one before it is through.  The bus layers and the memory controllers come from
memoizing constructors: the tables `World.buses` and `World.memcs` give a simulation
the objects that earlier ones have left at some other cycle.

In every world that simulations lead to, each object is set to some cycle and otherwise
as it was made (`World.Ok`).  So the cycle at which an access is through is one and the
same function of the cycle at which it starts, whatever has been simulated before
(`exists_stage`, `exists_pipeline`).  The function is paced by the lcm of the turn
lengths times `ntcs`: the lists of latencies cover one period of it
(`latencies_one_period`), and accesses stay in order (`accesses_in_order`).
-/

namespace DynamicCache.Latency

open Lib

/-- The tables of the memoizing constructors. -/
structure World where
  buses : BusLayer.Options → Option BusLayer
  memcs : MemoryController.Options → Option MemoryController

inductive Component where
  | bus (o : BusLayer.Options)
  | cache (c : PipelinedCache)
  | memory (o : MemoryController.Options)
  deriving Repr, DecidableEq

namespace World

def fresh : World := ⟨fun _ => none, fun _ => none⟩

/-- `BusLayer.new_m` -/
def bus (w : World) (o : BusLayer.Options) : Except Fault BusLayer := memoized w.buses BusLayer.new o

/-- `NonPreemptingMC.new_m` -/
def memory (w : World) (o : MemoryController.Options) : Except Fault MemoryController :=
  memoized w.memcs NonPreemptingMC.new o

def setBus (w : World) (o : BusLayer.Options) (b : BusLayer) : World :=
  { w with buses := Function.update w.buses o (some b) }

def setMemory (w : World) (o : MemoryController.Options) (m : MemoryController) : World :=
  { w with memcs := Function.update w.memcs o (some m) }

/-- The constructor of a component leaves its object in the table. -/
def newM (w : World) : Component → Except Fault World
  | .bus o => do
    let b ← w.bus o
    .ok (w.setBus o b)
  | .cache _ => .ok w
  | .memory o => do
    let m ← w.memory o
    .ok (w.setMemory o m)

/-- `component.update time`, then `component.cycle_complete time` -/
def complete (s : World × Int) : Component → Except Fault (World × Int)
  | .bus o => do
    let b ← s.1.bus o
    let r ← (b.update s.2).cycleComplete s.2
    .ok (s.1.setBus o r.1, r.2)
  | .cache c => .ok (s.1, c.cycleComplete s.2)
  | .memory o => do
    let m ← s.1.memory o
    let r ← (m.update s.2).cycleComplete s.2
    .ok (s.1.setMemory o r.1, r.2)

/-- `[...].inject(time)` over the components. -/
def simulate (w : World) (components : List Component) (time : Int) : Except Fault (World × Int) := do
  let w ← runs newM w components
  runs complete (w, time) components

end World

/-- `reduce(:lcm)` -/
def reduceLcm : List Int → Int
  | [] => 0
  | x :: xs => xs.foldl (fun a b => (Int.lcm a b : Int)) x

/-- `n.times.to_a.map { |time| simulate(time) - time }` -/
def latencies (simulate : World → Int → Except Fault (World × Int)) (w : World) :
    Nat → Except Fault (World × List Int)
  | 0 => .ok (w, [])
  | n + 1 => do
    let s ← latencies simulate w n
    let r ← simulate s.1 n
    .ok (r.1, s.2 ++ [r.2 - n])

/-! ## Hits -/

structure HitOptions where
  l2l3reqTl : Int := 1
  l2l3reqO : Int := 0
  l2l3respTl : Int := 9
  l2l3respO : Int := 0
  tL3 : Int := 9
  tReq : Int := 1
  tResp : Int := 9
  ntcs : Int := 2
  deriving Repr, DecidableEq

namespace HitOptions

variable (o : HitOptions)

def components : List Component :=
  [.bus { name := .l2l3Req, message := o.tReq, ntcs := o.ntcs, turnL := o.l2l3reqTl, offset := o.l2l3reqO },
   .cache { tL3 := o.tL3 },
   .bus { name := .l2l3Resp, message := o.tResp, ntcs := o.ntcs, turnL := o.l2l3respTl, offset := o.l2l3respO }]

def turnLengths : List Int := [o.l2l3reqTl, o.l2l3respTl]

def period : Int := reduceLcm o.turnLengths * o.ntcs

end HitOptions

def simulateL3Hit (w : World) (o : HitOptions) (time : Int) : Except Fault (World × Int) :=
  w.simulate o.components time

def l3HitLatencies (w : World) (o : HitOptions) : Except Fault (World × List Int) :=
  latencies (fun w time => simulateL3Hit w o time) w o.period.toNat

/-! ## Misses -/

/-- The defaults of `l3_miss_latencies`; the `mem_tl` of `simulate_l3_miss` has no
default that is a number. -/
structure MissOptions where
  l2l3reqTl : Int := 9
  l2l3reqO : Int := 0
  l2l3respTl : Int := 9
  l2l3respO : Int := 0
  l3memreqTl : Int := 9
  l3memreqO : Int := 0
  l3memrespTl : Int := 9
  l3memrespO : Int := 0
  memTl : Int := toBus 44
  memO : Int := 0
  tL3 : Int := 9
  tReq : Int := 1
  tResp : Int := 9
  memWc : Int := toBus 43
  memWcRead : Int := toBus 24
  ntcs : Int := 2
  deriving Repr, DecidableEq

namespace MissOptions

variable (o : MissOptions)

def components : List Component :=
  [.bus { name := .l2l3Req, message := o.tReq, ntcs := o.ntcs, turnL := o.l2l3reqTl, offset := o.l2l3reqO },
   .cache { tL3 := o.tL3 },
   .bus { name := .l3memReq, message := o.tReq, ntcs := o.ntcs, turnL := o.l3memreqTl, offset := o.l3memreqO },
   .memory { wc := o.memWc, wcRead := o.memWcRead, ntcs := o.ntcs, tMem := o.memTl, offset := o.memO },
   .bus { name := .l3memResp, message := o.tResp, ntcs := o.ntcs, turnL := o.l3memrespTl, offset := o.l3memrespO },
   .cache { tL3 := o.tL3 },
   .bus { name := .l2l3Resp, message := o.tResp, ntcs := o.ntcs, turnL := o.l2l3respTl, offset := o.l2l3respO }]

def turnLengths : List Int := [o.l2l3reqTl, o.l2l3respTl, o.l3memreqTl, o.l3memrespTl, o.memTl]

def period : Int := reduceLcm o.turnLengths * o.ntcs

end MissOptions

def simulateL3Miss (w : World) (o : MissOptions) (time : Int) : Except Fault (World × Int) :=
  w.simulate o.components time

def l3MissLatencies (w : World) (o : MissOptions) : Except Fault (World × List Int) :=
  latencies (fun w time => simulateL3Miss w o time) w o.period.toNat

/-! ## The objects between simulations -/

/-- A simulation made earlier. -/
inductive Access where
  | hit (o : HitOptions) (time : Int)
  | miss (o : MissOptions) (time : Int)
  deriving Repr, DecidableEq

variable {o : BusLayer.Options} {cs : List Component} {x : Int} {xs : List Int} {w : World}

def Access.components : Access → List Component
  | .hit o _ => o.components
  | .miss o _ => o.components

def Access.time : Access → Int
  | .hit _ t => t
  | .miss _ t => t

namespace World

def serve (w : World) (a : Access) : Except Fault World := do
  let r ← w.simulate a.components a.time
  .ok r.1

/-- The worlds that simulations lead to. -/
def Reached (w : World) : Prop := ∃ earlier, runs serve fresh earlier = .ok w

/-- Every object is as its constructor made it, set to some cycle. -/
structure Ok (w : World) : Prop where
  buses : Kept BusLayer.Options.Object w.buses
  memcs : Kept MemoryController.Options.Object w.memcs

variable {w w' : World}

theorem ok_fresh : fresh.Ok := ⟨kept_empty, kept_empty⟩

theorem Ok.bus {b : BusLayer} (hw : w.Ok) (h : w.bus o = .ok b) : o.Object b :=
  hw.buses.memoized (fun _ => BusLayer.Options.Object.of_new) h

theorem Ok.bus_total (hw : w.Ok) (ho : o.Makes) : ∃ t, w.bus o = .ok (o.bus t) := by
  obtain ⟨_, hb, -, t, rfl⟩ := hw.buses.memoized_total ⟨_, BusLayer.Options.new_ok.2 ⟨ho, rfl⟩, ho, 0, rfl⟩
  exact ⟨t, hb⟩

theorem Ok.setBus {b : BusLayer} (hw : w.Ok) (hb : o.Object b) : (w.setBus o b).Ok :=
  ⟨hw.buses.update hb, hw.memcs⟩

theorem Ok.memory {o : MemoryController.Options} {m : MemoryController} (hw : w.Ok) (h : w.memory o = .ok m) :
    o.Object m :=
  hw.memcs.memoized (fun _ => MemoryController.Options.Object.of_new) h

theorem Ok.memory_total {o : MemoryController.Options} (hw : w.Ok) (ho : o.Makes) :
    ∃ t, w.memory o = .ok (o.memory t) := by
  obtain ⟨_, hm, -, t, rfl⟩ := hw.memcs.memoized_total ⟨_, MemoryController.Options.new_ok.2 ⟨ho, rfl⟩, ho, 0, rfl⟩
  exact ⟨t, hm⟩

theorem Ok.setMemory {o : MemoryController.Options} {m : MemoryController} (hw : w.Ok) (hm : o.Object m) :
    (w.setMemory o m).Ok :=
  ⟨hw.buses, hw.memcs.update hm⟩

theorem Ok.newM {c : Component} (hw : w.Ok) (h : w.newM c = .ok w') : w'.Ok := by
  cases c with
  | bus o =>
    obtain ⟨b, hb, h⟩ := bind_ok.1 h
    cases h
    exact hw.setBus (hw.bus hb)
  | cache c =>
    cases h
    exact hw
  | memory o =>
    obtain ⟨m, hm, h⟩ := bind_ok.1 h
    cases h
    exact hw.setMemory (hw.memory hm)

theorem Ok.complete {c : Component} {s s' : World × Int} (hw : s.1.Ok) (h : World.complete s c = .ok s') :
    s'.1.Ok := by
  cases c with
  | bus o =>
    obtain ⟨b, hb, hrun⟩ := bind_ok.1 h
    obtain ⟨r, hr, hset⟩ := bind_ok.1 hrun
    cases hset
    exact hw.setBus ((hw.bus hb).cycleComplete hr)
  | cache c =>
    cases h
    exact hw
  | memory o =>
    obtain ⟨m, hm, hrun⟩ := bind_ok.1 h
    obtain ⟨r, hr, hset⟩ := bind_ok.1 hrun
    cases hset
    exact hw.setMemory ((hw.memory hm).cycleComplete hr)

theorem Ok.simulate {t : Int} {s : World × Int} (hw : w.Ok) (h : w.simulate cs t = .ok s) : s.1.Ok := by
  obtain ⟨w₁, hnew, hrun⟩ := bind_ok.1 h
  have hw₁ := runs_preserves Ok (fun _ _ _ => Ok.newM) hw hnew
  exact runs_preserves (fun s : World × Int => s.1.Ok) (fun _ _ _ => Ok.complete) hw₁ hrun

theorem Reached.ok (h : w.Reached) : w.Ok := by
  obtain ⟨earlier, hrun⟩ := h
  refine runs_preserves Ok (fun w a w' hw hstep => ?_) ok_fresh hrun
  obtain ⟨s, hs, hstep⟩ := bind_ok.1 hstep
  cases hstep
  exact hw.simulate hs

end World

/-! ## A simulation as a function of its start -/

namespace Component

/-- The component is through after a function of time paced by `P`. -/
def Fits (P : Int) : Component → Prop
  | .bus o => o.Valid ∧ o.turnL * o.ntcs ∣ P
  | .cache _ => True
  | .memory o => o.Valid ∧ o.tMem * o.ntcs ∣ P

variable {P : Int} {c : Component}

theorem newM_total (hc : c.Fits P) (hw : w.Ok) : ∃ w', w.newM c = .ok w' ∧ w'.Ok := by
  cases c with
  | bus o =>
    obtain ⟨t, ht⟩ := hw.bus_total hc.1.makes
    exact ⟨_, bind_ok.2 ⟨_, ht, rfl⟩, hw.setBus ⟨hc.1.makes, t, rfl⟩⟩
  | cache c => exact ⟨w, rfl, hw⟩
  | memory o =>
    obtain ⟨t, ht⟩ := hw.memory_total hc.1.makes
    exact ⟨_, bind_ok.2 ⟨_, ht, rfl⟩, hw.setMemory ⟨hc.1.makes, t, rfl⟩⟩

/-- What a component does to the time does not depend on the world. -/
theorem exists_stage (hP : 0 ≤ P) (hc : c.Fits P) :
    ∃ f, Paced P f ∧ ∀ (w : World) t, w.Ok → ∃ w', World.complete (w, t) c = .ok (w', f t) ∧ w'.Ok := by
  cases c with
  | bus o =>
    obtain ⟨ho, hdvd⟩ := hc
    have hpos : 0 < o.turnL * o.ntcs := Int.mul_pos ho.turnL ho.ntcs
    refine ⟨_, (BusLayer.Options.paced_finish ho).of_dvd hpos hP hdvd, fun w t hw => ?_⟩
    obtain ⟨s, hs⟩ := hw.bus_total ho.makes
    have hrun : ((o.bus s).update t).cycleComplete t = _ := BusLayer.Options.update_bus s t ▸
      BusLayer.Options.cycleComplete_bus ho t t
    exact ⟨_, bind_ok.2 ⟨_, hs, bind_ok.2 ⟨_, hrun, rfl⟩⟩, hw.setBus ⟨ho.makes, _, rfl⟩⟩
  | cache c => exact ⟨_, Paced.add_const c.tL3, fun w t hw => ⟨w, rfl, hw⟩⟩
  | memory o =>
    obtain ⟨ho, hdvd⟩ := hc
    have htMem : 0 < o.tMem := by
      have h1 := ho.tMem
      have h2 := ho.makes.wc
      omega
    have hpos : 0 < o.tMem * o.ntcs := Int.mul_pos htMem ho.ntcs
    refine ⟨_, (MemoryController.Options.paced_finish ho).of_dvd hpos hP hdvd, fun w t hw => ?_⟩
    obtain ⟨s, hs⟩ := hw.memory_total ho.makes
    have hrun : ((o.memory s).update t).cycleComplete t = _ := MemoryController.Options.update_memory s t ▸
      MemoryController.Options.cycleComplete_memory ho t t
    exact ⟨_, bind_ok.2 ⟨_, hs, bind_ok.2 ⟨_, hrun, rfl⟩⟩, hw.setMemory ⟨ho.makes, _, rfl⟩⟩

end Component

section Pipeline

variable {P : Int} {cs : List Component}

theorem exists_stages (hP : 0 ≤ P) (hcs : ∀ c ∈ cs, c.Fits P) :
    ∃ f, Paced P f ∧ ∀ (w : World) t, w.Ok → ∃ w', runs World.complete (w, t) cs = .ok (w', f t) ∧ w'.Ok := by
  induction cs with
  | nil => exact ⟨id, Paced.of_id, fun w t hw => ⟨w, rfl, hw⟩⟩
  | cons c cs ih =>
    obtain ⟨f, hf, hstep⟩ := Component.exists_stage hP (hcs c List.mem_cons_self)
    obtain ⟨g, hg, hrest⟩ := ih fun c hc => hcs c (List.mem_cons_of_mem _ hc)
    refine ⟨g ∘ f, hg.comp hf, fun w t hw => ?_⟩
    obtain ⟨w₁, h₁, hw₁⟩ := hstep w t hw
    obtain ⟨w₂, h₂, hw₂⟩ := hrest w₁ (f t) hw₁
    exact ⟨w₂, bind_ok.2 ⟨_, h₁, h₂⟩, hw₂⟩

theorem exists_pipeline (hP : 0 ≤ P) (hcs : ∀ c ∈ cs, c.Fits P) :
    ∃ f, Paced P f ∧ ∀ (w : World) t, w.Ok → ∃ w', w.simulate cs t = .ok (w', f t) ∧ w'.Ok := by
  obtain ⟨f, hf, hrun⟩ := exists_stages hP hcs
  refine ⟨f, hf, fun w t hw => ?_⟩
  obtain ⟨w₁, hnew, hw₁⟩ := runs_total World.Ok (fun w c hw hc => Component.newM_total hc hw) hw
    (always_of_mem hcs)
  obtain ⟨w₂, h₂, hw₂⟩ := hrun w₁ t hw₁
  exact ⟨w₂, bind_ok.2 ⟨_, hnew, h₂⟩, hw₂⟩

theorem latencies_eq {simulate : World → Int → Except Fault (World × Int)} {f : Int → Int}
    (h : ∀ (w : World) t, w.Ok → ∃ w', simulate w t = .ok (w', f t) ∧ w'.Ok) (hw : w.Ok) (n : Nat) :
    ∃ w', latencies simulate w n = .ok (w', (List.range n).map fun t : Nat => f t - t) ∧ w'.Ok := by
  induction n with
  | zero => exact ⟨w, rfl, hw⟩
  | succ n ih =>
    obtain ⟨w₁, h₁, hw₁⟩ := ih
    obtain ⟨w₂, h₂, hw₂⟩ := h w₁ n hw₁
    refine ⟨w₂, bind_ok.2 ⟨_, h₁, bind_ok.2 ⟨_, h₂, ?_⟩⟩, hw₂⟩
    rw [List.range_succ, List.map_append]
    rfl

end Pipeline

/-! ## Turn lengths -/

theorem dvd_foldl_lcm : x ∣ xs.foldl (fun a b => (Int.lcm a b : Int)) x ∧
      ∀ y ∈ xs, y ∣ xs.foldl (fun a b => (Int.lcm a b : Int)) x := by
  induction xs generalizing x with
  | nil => exact ⟨dvd_rfl, fun y hy => by cases hy⟩
  | cons z xs ih =>
    obtain ⟨hhead, hrest⟩ := ih (x := (Int.lcm x z : Int))
    refine ⟨(Int.dvd_lcm_left ..).trans hhead, fun y hy => ?_⟩
    rcases List.mem_cons.1 hy with rfl | hy
    · exact (Int.dvd_lcm_right ..).trans hhead
    · exact hrest y hy

theorem dvd_reduceLcm (h : x ∈ xs) : x ∣ reduceLcm xs := by
  cases xs with
  | nil => cases h
  | cons z xs =>
    rcases List.mem_cons.1 h with rfl | h
    · exact dvd_foldl_lcm.1
    · exact dvd_foldl_lcm.2 x h

theorem foldl_lcm_pos (hx : 1 ≤ x) (hxs : ∀ y ∈ xs, 1 ≤ y) :
    0 < xs.foldl (fun a b => (Int.lcm a b : Int)) x := by
  induction xs generalizing x with
  | nil => exact hx
  | cons z xs ih =>
    have hz := hxs z List.mem_cons_self
    have hlcm : 0 < Int.lcm x z := Int.lcm_pos (by omega) (by omega)
    exact ih (x := (Int.lcm x z : Int)) (by exact_mod_cast hlcm) fun y hy => hxs y (List.mem_cons_of_mem _ hy)

theorem reduceLcm_pos (h : ∀ y ∈ x :: xs, 1 ≤ y) : 0 < reduceLcm (x :: xs) :=
  foldl_lcm_pos (h x List.mem_cons_self) fun y hy => h y (List.mem_cons_of_mem _ hy)

/-- All turns have a length. -/
def HitOptions.Positive (o : HitOptions) : Prop := ∀ tl ∈ o.turnLengths, 1 ≤ tl

/-- All turns have a length, an access to memory ends before its turn, and the data of a
read are there before the access ends. -/
structure MissOptions.Positive (o : MissOptions) : Prop where
  turns : ∀ tl ∈ o.turnLengths, 1 ≤ tl
  memWc : o.memWc < o.memTl
  memWcRead : o.memWcRead ≤ o.memWc
  read : 1 ≤ o.memWcRead

theorem HitOptions.period_pos {o : HitOptions} (h : o.Positive) (hn : 1 ≤ o.ntcs) : 0 < o.period :=
  Int.mul_pos (reduceLcm_pos h) hn

theorem MissOptions.period_pos {o : MissOptions} (h : o.Positive) (hn : 1 ≤ o.ntcs) : 0 < o.period :=
  Int.mul_pos (reduceLcm_pos h.turns) hn

theorem HitOptions.fits {o : HitOptions} (h : o.Positive) (hn : 1 ≤ o.ntcs) :
    ∀ c ∈ o.components, c.Fits o.period := by
  have hdvd : ∀ tl ∈ o.turnLengths, tl * o.ntcs ∣ o.period := fun tl htl =>
    Int.mul_dvd_mul_right _ (dvd_reduceLcm htl)
  have hreq : o.l2l3reqTl ∈ o.turnLengths := by simp [turnLengths]
  have hresp : o.l2l3respTl ∈ o.turnLengths := by simp [turnLengths]
  simp only [components, List.forall_mem_cons]
  exact ⟨⟨⟨h _ hreq, hn⟩, hdvd _ hreq⟩, trivial, ⟨⟨h _ hresp, hn⟩, hdvd _ hresp⟩, by simp⟩

theorem MissOptions.fits {o : MissOptions} (h : o.Positive) (hn : 1 ≤ o.ntcs) :
    ∀ c ∈ o.components, c.Fits o.period := by
  have hdvd : ∀ tl ∈ o.turnLengths, tl * o.ntcs ∣ o.period := fun tl htl =>
    Int.mul_dvd_mul_right _ (dvd_reduceLcm htl)
  have hbus : ∀ {name message turnL offset}, turnL ∈ o.turnLengths →
      (Component.bus { name := name, message := message, ntcs := o.ntcs, turnL := turnL, offset := offset }).Fits
        o.period := fun htl => ⟨⟨h.turns _ htl, hn⟩, hdvd _ htl⟩
  simp only [components, List.forall_mem_cons]
  refine ⟨hbus ?_, trivial, hbus ?_, ⟨⟨h.memWc, h.memWcRead, h.read, hn⟩, hdvd _ ?_⟩, hbus ?_, trivial, hbus ?_,
    by simp⟩
  all_goals simp [turnLengths]

/-! ## One period of the latencies -/

/-- After any simulations, `simulate` ends, at a cycle that only depends on its start;
started `P` cycles later it ends `P` cycles later, and `list` returns the latencies of the
first `P` starts. -/
def OnePeriod (simulate : World → Int → Except Fault (World × Int))
    (list : World → Except Fault (World × List Int)) (P : Int) : Prop :=
  0 < P ∧ ∃ finish : Int → Int,
    (∀ w, w.Reached → ∀ t, ∃ w', simulate w t = .ok (w', finish t)) ∧
    (∀ t, finish (t + P) = finish t + P) ∧
    ∀ w, w.Reached → ∃ w', list w = .ok (w', (List.range P.toNat).map fun t : Nat => finish t - t)

theorem onePeriod {P : Int} (hP : 0 < P) (hcs : ∀ c ∈ cs, c.Fits P) :
    OnePeriod (fun w t => w.simulate cs t) (fun w => latencies (fun w t => w.simulate cs t) w P.toNat) P := by
  obtain ⟨f, hf, hrun⟩ := exists_pipeline hP.le hcs
  refine ⟨hP, f, fun w hw t => ?_, hf.commute, fun w hw => ?_⟩
  · obtain ⟨w', h, -⟩ := hrun w t hw.ok
    exact ⟨w', h⟩
  · obtain ⟨w', h, -⟩ := latencies_eq hrun hw.ok P.toNat
    exact ⟨w', h⟩

theorem latencies_one_period :
    (∀ o : HitOptions, o.Positive → 1 ≤ o.ntcs →
      OnePeriod (fun w t => simulateL3Hit w o t) (fun w => l3HitLatencies w o) o.period) ∧
    ∀ o : MissOptions, o.Positive → 1 ≤ o.ntcs →
      OnePeriod (fun w t => simulateL3Miss w o t) (fun w => l3MissLatencies w o) o.period :=
  ⟨fun _ h hn => onePeriod (HitOptions.period_pos h hn) (HitOptions.fits h hn),
    fun _ h hn => onePeriod (MissOptions.period_pos h hn) (MissOptions.fits h hn)⟩

theorem latencies_one_period_defaults :
    HitOptions.period {} = 18 ∧
      OnePeriod (fun w t => simulateL3Hit w {} t) (fun w => l3HitLatencies w {}) (HitOptions.period {}) ∧
    MissOptions.period {} = 396 ∧
      OnePeriod (fun w t => simulateL3Miss w {} t) (fun w => l3MissLatencies w {}) (MissOptions.period {}) :=
  ⟨by decide, latencies_one_period.1 {} (by unfold HitOptions.Positive; decide) (by decide),
    by decide, latencies_one_period.2 {} ⟨by decide, by decide, by decide, by decide⟩ (by decide)⟩

/-! ## Order -/

/-- Of two simulations after any others, the one that starts no later ends no later. -/
def InOrder (simulate : World → Int → Except Fault (World × Int)) : Prop :=
  ∀ w₁ w₂, w₁.Reached → w₂.Reached → ∀ t₁ t₂, t₁ ≤ t₂ → ∀ r₁ r₂,
    simulate w₁ t₁ = .ok r₁ → simulate w₂ t₂ = .ok r₂ → r₁.2 ≤ r₂.2

/-- After any simulations, `simulate` ends. -/
def Ends (simulate : World → Int → Except Fault (World × Int)) : Prop :=
  ∀ w, w.Reached → ∀ t, ∃ r, simulate w t = .ok r

theorem inOrder_of_fits {P : Int} (hP : 0 < P) (hcs : ∀ c ∈ cs, c.Fits P) :
    InOrder (fun w t => w.simulate cs t) ∧ Ends (fun w t => w.simulate cs t) := by
  obtain ⟨f, hf, hrun⟩ := exists_pipeline hP.le hcs
  constructor
  · intro w₁ w₂ hw₁ hw₂ t₁ t₂ ht r₁ r₂ h₁ h₂
    obtain ⟨w₁', h₁', -⟩ := hrun w₁ t₁ hw₁.ok
    obtain ⟨w₂', h₂', -⟩ := hrun w₂ t₂ hw₂.ok
    cases h₁'.symm.trans h₁
    cases h₂'.symm.trans h₂
    exact hf.mono ht
  · intro w hw t
    obtain ⟨w', h, -⟩ := hrun w t hw.ok
    exact ⟨_, h⟩

/-- No array has a negative number of turns in it. -/
theorem ntcs_of_simulate {t : Int} {r : World × Int} (hw : w.Ok) (h : w.simulate (.bus o :: cs) t = .ok r) :
    1 ≤ o.ntcs := by
  obtain ⟨w₁, hnew, -⟩ := bind_ok.1 h
  obtain ⟨w₂, hbus, -⟩ := bind_ok.1 hnew
  obtain ⟨b, hb, -⟩ := bind_ok.1 hbus
  exact (hw.bus hb).1.ntcs

theorem accesses_in_order :
    (∀ o : HitOptions, o.Positive →
      InOrder (fun w t => simulateL3Hit w o t) ∧ (1 ≤ o.ntcs → Ends fun w t => simulateL3Hit w o t)) ∧
    ∀ o : MissOptions, o.Positive →
      InOrder (fun w t => simulateL3Miss w o t) ∧ (1 ≤ o.ntcs → Ends fun w t => simulateL3Miss w o t) := by
  constructor
  · intro o ho
    have hfits := fun hn : 1 ≤ o.ntcs => inOrder_of_fits (HitOptions.period_pos ho hn) (HitOptions.fits ho hn)
    refine ⟨fun w₁ w₂ hw₁ hw₂ t₁ t₂ ht r₁ r₂ h₁ h₂ => ?_, fun hn => (hfits hn).2⟩
    exact (hfits (ntcs_of_simulate hw₁.ok h₁)).1 w₁ w₂ hw₁ hw₂ t₁ t₂ ht r₁ r₂ h₁ h₂
  · intro o ho
    have hfits := fun hn : 1 ≤ o.ntcs => inOrder_of_fits (MissOptions.period_pos ho hn) (MissOptions.fits ho hn)
    refine ⟨fun w₁ w₂ hw₁ hw₂ t₁ t₂ ht r₁ r₂ h₁ h₂ => ?_, fun hn => (hfits hn).2⟩
    exact (hfits (ntcs_of_simulate hw₁.ok h₁)).1 w₁ w₂ hw₁ hw₂ t₁ t₂ ht r₁ r₂ h₁ h₂

/-- With the defaults, hits that start at cycles 0 and 1 leave in the same turn. -/
theorem accesses_in_order_defaults :
    (do
      let r₁ ← simulateL3Hit .fresh {} 0
      let r₂ ← simulateL3Hit r₁.1 {} 1
      .ok (r₁.2, r₂.2)) = (.ok (27, 27) : Except Fault (Int × Int)) ∧
    InOrder (fun w t => simulateL3Hit w {} t) ∧ InOrder fun w t => simulateL3Miss w {} t :=
  ⟨rfl, (accesses_in_order.1 {} (by unfold HitOptions.Positive; decide)).1,
    (accesses_in_order.2 {} ⟨by decide, by decide, by decide, by decide⟩).1⟩

end DynamicCache.Latency
