/-!
# The command line

All options are long and take a value, given as the next argument or behind an
equals sign. None may occur twice. The image is required.
-/

namespace Famicom

/-- What a run is asked to do. -/
structure Options where
  rom : String
  frames : Nat
  /-- Where the last frame goes. -/
  screenshot : Option String
  /-- Where the sound goes. -/
  wav : Option String
  /-- Where the machine is saved. -/
  state : Option String
  /-- Where a saved machine comes from. -/
  loadState : Option String
  rate : UInt32
deriving DecidableEq

/-- Why there is nothing to run. -/
inductive Refusal where
  | help
  | usage
deriving DecidableEq

def Refusal.exitCode : Refusal → UInt8
  | help => 0
  | usage => 2

namespace CommandLine

def helpText : String :=
  "Run an NES ROM headless\n\n" ++
  "Options:\n" ++
  "  --rom <ROM>                  iNES ROM file (.nes)\n" ++
  "  --frames <FRAMES>            Frames to run [default: 60]\n" ++
  "  --screenshot <SCREENSHOT>    Save a PNG screenshot of the last frame\n" ++
  "  --wav <WAV>                  Save the audio as a 32-bit float WAV\n" ++
  "  --state <STATE>              Write a JSON save state after the run\n" ++
  "  --load-state <LOAD_STATE>    Restore a JSON save state before running\n" ++
  "  --sample-rate <SAMPLE_RATE>  Audio sample rate in Hz [default: 48000]\n" ++
  "  -h, --help                   Print help\n"

def optionNames : List String :=
  ["rom", "frames", "screenshot", "wav", "state", "load-state", "sample-rate"]

def numberNames : List String := ["frames", "sample-rate"]

def digits? (cs : List Char) : Option Nat :=
  if cs.isEmpty then none
  else
    cs.foldlM (fun n c => if c.isDigit then some (n * 10 + (c.toNat - '0'.toNat)) else none) 0

def signed? (s : String) : Option Int :=
  match s.toList with
  | '-' :: cs => (digits? cs).map fun n => -(n : Int)
  | '+' :: cs => (digits? cs).map Int.ofNat
  | cs => (digits? cs).map Int.ofNat

def number? (s : String) : Option Nat :=
  match signed? s with
  | some n => if 0 ≤ n ∧ n < UInt32.size then some n.toNat else none
  | none => none

def admissible (name value : String) : Bool :=
  if numberNames.contains name then (number? value).isSome else !value.isEmpty

/-- The arguments as far as they were read. -/
abbrev Settings := List (String × String)

def Settings.add (s : Settings) (name value : String) : Except Refusal Settings :=
  if optionNames.contains name && (s.lookup name).isNone && admissible name value then
    return (name, value) :: s
  else throw .usage

/-- Whether an argument can be the value of the option before it. -/
def isValue (arg : String) : Bool :=
  match arg.toList with
  | '-' :: _ :: _ => false
  | _ => true

/-- Split an argument at its first equals sign. -/
def splitValue (arg : List Char) : List Char × Option (List Char) :=
  (arg.takeWhile (· ≠ '='),
    match arg.dropWhile (· ≠ '=') with
    | [] => none
    | _ :: value => some value)

def settings (s : Settings) : List String → Except Refusal Settings
  | [] => return s
  | arg :: rest =>
    match arg.toList with
    | ['-', '-'] => if rest.isEmpty then return s else throw .usage
    | '-' :: '-' :: body =>
      match splitValue body, rest with
      | (name, some value), rest => do
        settings (← s.add (String.ofList name) (String.ofList value)) rest
      | (name, none), rest =>
        if name = "help".toList then throw .help
        else
          match rest with
          | value :: rest => do
            if !isValue value then throw .usage
            settings (← s.add (String.ofList name) value) rest
          | [] => throw .usage
    | '-' :: 'h' :: _ => throw .help
    | _ => throw .usage

def parse (args : List String) : Except Refusal Options := do
  let s ← settings [] args
  let number (name : String) (default : Nat) : Nat :=
    ((s.lookup name).bind number?).getD default
  match s.lookup "rom" with
  | none => throw .usage
  | some rom =>
    return { rom
             frames := number "frames" 60
             screenshot := s.lookup "screenshot"
             wav := s.lookup "wav"
             state := s.lookup "state"
             loadState := s.lookup "load-state"
             rate := (number "sample-rate" 48000).toUInt32 }

end CommandLine

end Famicom
