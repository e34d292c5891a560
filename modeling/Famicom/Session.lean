import Famicom.Archive.Machine
import Famicom.CommandLine
import Famicom.Recording.Png
import Famicom.Recording.Wave

/-!
# Sessions

A session builds a machine from an image, may continue from a saved one, runs
some frames and leaves what it was asked for: a picture of the last frame, the
sound, or the saved machine. Files are whatever the caller says they are.
-/

namespace Famicom

open Recording

inductive Artifact where
  | picture (screen : Memory UInt32 61440)
  | sound (rate : UInt32) (samples : Array Float32)
  | machine (saved : SavedMachine)

def Artifact.bytes : Artifact → ByteArray
  | picture screen => ⟨Png.file screen⟩
  | sound rate samples => ⟨Wave.file rate samples⟩
  | machine saved => (Archive.write saved).toUTF8

inductive Failure where
  | machine (cause : MachineError)
  | file (path : String)
  /-- A file does not hold a saved machine. -/
  | state (path : String)
deriving DecidableEq

def Failure.message : Failure → String
  | machine cause => cause.message
  | file path => "I/O: " ++ path
  | state path => "save state: " ++ path

/-- The files that a session has to do with. -/
structure Files (m : Type → Type) where
  read : String → m (Option ByteArray)
  /-- Leave an artifact in a file. It may turn out that this is impossible. -/
  write : String → Artifact → m Bool

namespace Machine

def restoreText (path : String) (contents : ByteArray) (m : Machine) : Except Failure Machine :=
  match Archive.read? contents with
  | none => throw (.state path)
  | some saved =>
    match m.restore saved with
    | .ok m => return m
    | .error cause => throw (.machine cause)

/-- Run frames and keep their sound, on top of what there was before. -/
def record : (frames : Nat) → (samples : Array Float32) → Machine → Array Float32 × Machine
  | 0, samples, m => (samples, m)
  | n + 1, samples, m =>
    let (_, m) := m.runFrame
    let (new, m) := m.takeSamples
    record n (samples ++ new) m

end Machine

namespace Session

variable {m : Type → Type} [Monad m]

def readFile (files : Files m) (path : String) : ExceptT Failure m ByteArray := do
  match ← files.read path with
  | some contents => return contents
  | none => throw (.file path)

/-- Leave an artifact in a file, if there is one for it. -/
def leave (files : Files m) (path : Option String) (artifact : Artifact) :
    ExceptT Failure m Unit := do
  match path with
  | none => return
  | some path => if !(← files.write path artifact) then throw (.file path)

def start (files : Files m) (o : Options) : ExceptT Failure m Machine := do
  let image ← readFile files o.rom
  match Machine.ofImage image.data o.rate with
  | .error cause => throw (.machine cause)
  | .ok machine =>
    match o.loadState with
    | none => return machine
    | some path => liftExcept (machine.restoreText path (← readFile files path))
where
  liftExcept {α : Type} (outcome : Except Failure α) : ExceptT Failure m α :=
    match outcome with
    | .ok a => return a
    | .error cause => throw cause

/-- A whole session. Artifacts are left in order, up to the first that fails. -/
def run (files : Files m) (o : Options) : ExceptT Failure m Unit := do
  let machine ← start files o
  let (samples, machine) := machine.record o.frames #[]
  leave files o.screenshot (.picture machine.bus.picture.screen)
  leave files o.wav (.sound machine.bus.sound.rate samples)
  leave files o.state (.machine machine.save)

end Session

end Famicom
