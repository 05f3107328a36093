import SuprMeow.Fuse.Matchers
import SuprMeow.Library.RowLaunch
import SuprMeow.Library.Runs

/-!
# The fused kernels and the patched evaluation loop (`meow-fuse.cu`, `norm.cu`, `cpy.cu`)

The kernels of a fused window over byte memory, with the order of their threads as a parameter, and
the loop of `ggml_cuda_graph_evaluate_and_capture` with the matchers in front of the ordinary
nodes.  A failed `GGML_ASSERT` is `none`.

* `evaluation` — the loop as a machine; an event is the order of one launch;
* `FusionPreserves` — no assertion fails, and every tensor still read or put out has the value of
  the unfused execution.
-/

set_option autoImplicit false

namespace Fuse

open ByteMemory Strided Runs

section Kernels

variable {T : Type} (B : Backend T)

def meowBf16 (x : F32) : F32 := B.f32 (B.bf16 x)

def meowSwigluOne (g u : F32) : F32 :=
  let s := meowBf16 B (B.silu (meowBf16 B g))
  meowBf16 B (B.mul s (meowBf16 B u))

def meowAddOne (m o : F32) : F32 := meowBf16 B (B.add (meowBf16 B m) o)

/-- The launch of an elementwise kernel: four elements a thread where the addresses allow it. -/
def elementwise (f : F32 → F32 → F32) (a b dst : Tensor T) (ord : Order) (M : Mem) : Mem :=
  let ne := dst.nelements
  let val : Mem → Nat → F32 := fun M e => f (load 4 M (a.data + 4 * e)) (load 4 M (b.data + 4 * e))
  if ne = 0 then M
  else if ne % 4 = 0 ∧ a.data % 16 = 0 ∧ b.data % 16 = 0 ∧ dst.data % 16 = 0 then
    launch ord (ne / 4) 4 dst.data val M
  else launch ord ne 1 dst.data val M

/-- `ggml_cuda_bf16_roundtrip` -/
def ggmlCudaBf16Roundtrip (src dst : Tensor T) (ord : Order) (M : Mem) : Option Mem := do
  guard (src.type = .f32 ∧ dst.type = .f32)
  guard (src.isContiguous ∧ dst.isContiguous ∧ src.nelements = dst.nelements)
  return elementwise (fun x _ => meowBf16 B x) src src dst ord M

/-- `meow_chain` -/
def meowChain (f : F32 → F32 → F32) (a b dst : Tensor T) (ord : Order) (M : Mem) : Option Mem := do
  guard (a.type = .f32 ∧ b.type = .f32 ∧ dst.type = .f32)
  guard (a.isContiguous ∧ b.isContiguous ∧ dst.isContiguous)
  guard (a.nelements = dst.nelements ∧ b.nelements = dst.nelements)
  return elementwise f a b dst ord M

def ggmlCudaMeowSwigluBf16 (gate up dst : Tensor T) (ord : Order) (M : Mem) : Option Mem :=
  meowChain (meowSwigluOne B) gate up dst ord M

def ggmlCudaMeowAddBf16 (m other dst : Tensor T) (ord : Order) (M : Mem) : Option Mem :=
  meowChain (meowAddOne B) m other dst ord M

/-- Where `rms_norm_f32` finds row `blk` of its input, a row a block. -/
def rmsRow (x : Tensor T) (blk : Nat) : Nat :=
  let row := blk % x.ne.d1
  let channel := blk / x.ne.d1 % x.ne.d2
  let sample := blk / x.ne.d1 / x.ne.d2
  x.data + 4 * (sample * (x.nb.d3 / 4) + channel * (x.nb.d2 / 4) + row * (x.nb.d1 / 4))

/-- The reduction of a row. -/
def rmsScale (x : Tensor T) (eps : F32) (M : Mem) (blk : Nat) : F32 :=
  B.scale eps ((List.range x.ne.d0).map fun col => load 4 M (rmsRow x blk + 4 * col))

/-- What `rms_norm_f32` with `meow_round` stores as element `e`, behind the reduction of its row;
the element of the input is read again. -/
def rmsNormF32 (x w : Tensor T) (scale : F32) (M : Mem) (e : Nat) : F32 :=
  let blk := e / x.ne.d0
  let col := e % x.ne.d0
  let row := blk % x.ne.d1
  let channel := blk / x.ne.d1 % x.ne.d2
  let sample := blk / x.ne.d1 / x.ne.d2
  let mulRow := row % w.ne.d1
  let mulChannel := channel % w.ne.d2
  let mulSample := sample % w.ne.d3
  let wd := w.data +
    4 * (mulSample * (w.nb.d3 / 4) + mulChannel * (w.nb.d2 / 4) + mulRow * (w.nb.d1 / 4))
  let mulCol := col % w.ne.d0
  let n := meowBf16 B (B.mul scale (load 4 M (rmsRow x blk + 4 * col)))
  meowBf16 B (B.mul n (load 4 M (wd + 4 * mulCol)))

/-- `ggml_cuda_meow_rms_norm_mul_bf16`, of a node with first source `x` -/
def ggmlCudaMeowRmsNormMulBf16 (rms x w out : Tensor T) (ord : RowOrder) (M : Mem) :
    Option Mem := do
  guard (x.type = .f32 ∧ w.type = .f32 ∧ out.type = .f32 ∧ B.nonneg rms.eps)
  guard (x.nb.d0 = 4 ∧ w.nb.d0 = 4 ∧ out.isContiguous)
  return launchRows ord (x.ne.d1 * x.ne.d2 * x.ne.d3) x.ne.d0 out.data (rmsScale B x rms.eps)
    (rmsNormF32 B x w) M

end Kernels

/-! ## The loop -/

/-- The order in which the threads of a launch run, elementwise or over rows. -/
structure Schedule where
  blocks : Order
  rows : RowOrder

/-- What the loop runs at a node. -/
inductive Launch (T : Type) where
  | skip
  | norm (rms x w out : T)
  | swiglu (gate up out : T)
  | add (m other out : T)
  | cast (x out : T)
  | forward (node : T)
  deriving DecidableEq

/-- The nodes a launch stands for. -/
def Launch.width {T : Type} : Launch T → Nat
  | .skip => 1
  | .norm .. => 6
  | .swiglu .. => 11
  | .add .. => 5
  | .cast .. => 2
  | .forward _ => 1

namespace Cgraph

variable {T : Type} [DecidableEq T] (g : Cgraph T)

def normLaunch (level : FuseLevel) (i : Nat) : Option (Launch T) := do
  let w ← g.meowNormChain level i
  return .norm (← g.nodes[i]?) (← g.nodeSrc0 i) w (← g.nodes[i + 5]?)

def swigluLaunch (level : FuseLevel) (i : Nat) : Option (Launch T) := do
  let up ← g.meowSwigluChain level i
  return .swiglu (← g.nodeSrc0 i) up (← g.nodes[i + 10]?)

def addLaunch (level : FuseLevel) (i : Nat) : Option (Launch T) := do
  let other ← g.meowAddChain level i
  return .add (← g.nodeSrc0 i) other (← g.nodes[i + 4]?)

def castLaunch (level : FuseLevel) (i : Nat) : Option (Launch T) := do
  guard (g.meowBf16RoundtripFusable level i)
  return .cast (← g.nodeSrc0 i) (← g.nodes[i + 1]?)

/-- One pass of the loop up to the launch. -/
def dispatch (level : FuseLevel) (i : Nat) : Launch T :=
  match g.nodes[i]? with
  | none => .skip
  | some node =>
    if g.skipped node then .skip
    else
      (g.normLaunch level i <|> g.swigluLaunch level i <|> g.addLaunch level i <|>
        g.castLaunch level i).getD (.forward node)

def run (B : Backend T) (ord : Schedule) (M : Mem) : Launch T → Option Mem
  | .skip => some M
  | .norm rms x w out =>
    ggmlCudaMeowRmsNormMulBf16 B (g.tensor rms) (g.tensor x) (g.tensor w) (g.tensor out) ord.rows M
  | .swiglu gate up out =>
    ggmlCudaMeowSwigluBf16 B (g.tensor gate) (g.tensor up) (g.tensor out) ord.blocks
      (g.computeForward B up M)
  | .add m other out =>
    ggmlCudaMeowAddBf16 B (g.tensor m) (g.tensor other) (g.tensor out) ord.blocks M
  | .cast x out => ggmlCudaBf16Roundtrip B (g.tensor x) (g.tensor out) ord.blocks M
  | .forward node => some (g.computeForward B node M)

end Cgraph

/-- The next node and the memory. -/
structure Evaluation where
  pos : Nat
  mem : Mem

namespace Cgraph

variable {T : Type} [DecidableEq T] (g : Cgraph T)

/-- The patched loop from memory `M`; an event is the order of one launch. -/
def evaluation (B : Backend T) (level : FuseLevel) (M : Mem) : Machine Evaluation Schedule where
  init := ⟨0, M⟩
  step s ord :=
    if s.pos < g.nodes.length then do
      let l := g.dispatch level s.pos
      return ⟨s.pos + l.width, ← g.run B ord s.mem l⟩
    else none

/-! ## Specification -/

/-- The tensor has its value before node `p`, and is an output or read by that node or later. -/
def Visible (p : Nat) (t : T) : Prop :=
  g.Ready p (g.root t) ∧ ((g.tensor t).output = true ∨
    ∃ n ∈ g.nodes.drop p, (g.tensor n).compute = true ∧ ∃ k, (g.tensor n).src k = some t)

/-- Every visible tensor has the value the unfused execution gives it. -/
def Preserved (B : Backend T) (M : Mem) (s : Evaluation) : Prop :=
  ∀ t, g.Visible s.pos t → AgreeOn (g.tensor t).region s.mem (g.unfused B M s.pos)

/-- **The fusions preserve every visible value, and none of their assertions fails.** -/
def FusionPreserves (B : Backend T) (level : FuseLevel) : Prop :=
  ∀ M ords s, (g.evaluation B level M).exec ⟨0, M⟩ ords = some s →
    g.Preserved B M s ∧
      (s.pos < g.nodes.length → ∀ ord, ((g.evaluation B level M).step s ord).isSome = true)

end Cgraph

end Fuse
