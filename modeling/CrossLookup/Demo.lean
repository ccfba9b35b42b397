import CrossLookup.Circuit.Verification
import CrossLookup.Config
import CrossLookup.Constraint.Scan
import CrossLookup.MemoryBus.Constraints
import CrossLookup.MemoryBus.Lookup
import CrossLookup.MemoryBus.Sample
import CrossLookup.Prover

/-!
# The demonstration

A random sample of the memory bus is proved and verified, natively and in a
circuit. Every step reports one line; the first failure ends the run. A list whose
length the user chooses is made only if the machine grants room for it.
-/

namespace CrossLookup.Demo

/-- What the command line asks for. -/
structure Options where
  /-- The path of a configuration file; empty for the standard configuration. -/
  configPath : String
  rows : UInt64
  seed : UInt64
deriving DecidableEq

/-- Standard configuration, 64 rows and seed 1. -/
def Options.standard : Options := ⟨"", 64, 1⟩

/-- A reason to refuse a command line. -/
inductive OptionError
  /-- An argument is unknown or lacks its value. -/
  | usage
  /-- A value does not begin with a number. -/
  | notNumber
  /-- A value does not fit a machine word. -/
  | tooLarge
deriving DecidableEq, Repr

/-- The number with which a value begins; text after it is ignored. -/
def readNumber (value : String) : Except OptionError UInt64 :=
  match LeadingNumber.ofChars? value.toList with
  | none => .error .notNumber
  | some n =>
      match n.word? with
      | some w => .ok w
      | none => .error .tooLarge

/-- Read options in order; of several for one value the last counts. -/
def Options.read (options : Options) : List String → Except OptionError Options
  | [] => .ok options
  | [_] => .error .usage
  | name :: value :: rest =>
      if name = "--config" then
        { options with configPath := value }.read rest
      else if name = "--rows" then do
        let rows ← readNumber value
        { options with rows }.read rest
      else if name = "--seed" then do
        let seed ← readNumber value
        { options with seed }.read rest
      else
        .error .usage

/-- How to call the program. -/
def usage (program : String) : String :=
  "Usage:\n  " ++ program ++ " [--config <config.json>] [--rows <cpu rows>] [--seed <u64>]\n" ++
    "    Builds a random memory-bus sample (CPU + Memory tables), proves its\n" ++
    "    cross-table lookup and verifies it natively and in-circuit.\n"

/-- What a run writes and the code it ends with. -/
structure Report where
  output : String
  errors : String
  code : UInt32
deriving DecidableEq

/-- A run that reports lines and may end with an error line. -/
abbrev Run := ExceptT String (StateM String)

/-- Report a line. -/
def say (line : String) : Run Unit :=
  modify fun output => output ++ line ++ "\n"

/-- End the run with an error. -/
def fail {α : Type} (message : String) : Run α :=
  throw ("Error: " ++ message)

/-- Lift a result, ending the run with the wording of its error. -/
def orFail {ε α : Type} (wording : ε → String) : Except ε α → Run α
  | .ok a => pure a
  | .error e => fail (wording e)

/-- The answer of a machine to a request for bytes; a refusal has the wording of its error. -/
abbrev Allocator := Nat → Except String Unit

/-- The bytes that a list of rows takes for each of them, apart from their values. -/
def rowBytes : Nat := 24

/-- The bytes that a list of challenges takes for each of them. -/
def challengeBytes : Nat := 16

/-- Generate a sample, once there is room for its CPU rows. -/
def generateSample (allocate : Allocator) (rows : Nat) (seed : UInt64) : Run MemoryBus.Sample := do
  orFail id (allocate (rows * rowBytes))
  orFail Violation.message (MemoryBus.seededSample rows 2 seed)

/-- Prove lookups over a sample, once there is room for the challenges. -/
def proveSample (allocate : Allocator) (sample : MemoryBus.Sample) (lookups : List Lookup)
    (challenges : Nat) : Run ProverRun := do
  orFail id (allocate (challenges * challengeBytes))
  orFail Violation.message (prove sample.traces lookups challenges sample.outsideRows 1 0)

/-- Whether the memory-bus constraints hold on every row of a CPU trace. -/
def requireBusConstraints (trace : Trace) : Run Unit :=
  (List.range trace.height).forM fun row =>
    match MemoryBus.CpuRow.ofRow (trace.row row) with
    | .error e => fail e.message
    | .ok values =>
        let acc := MemoryBus.constrain values (.start [.ofWord 7] (.ofRow row trace.height))
        if acc.allZero then
          pure ()
        else
          throw ("Membus constraint violated at CPU row " ++ toString row)

/-- The factors that fold constraints. -/
def alphas : List Goldilocks := [.ofWord 3, .ofWord 5]

/-- The tables that take part. -/
def tables : List Table := [.cpu, .memory]

/-- Whether the lookup constraints hold on every row of a table. -/
def requireRowConstraints (traces : PerTable Trace) (run : ProverRun) (table : Table) :
    Run Unit :=
  match (traces.get table).firstBroken (run.products.get table) alphas with
  | .error e => fail e.message
  | .ok none => pure ()
  | .ok (some row) =>
      throw ("CTL constraint violated in " ++ table.name ++ " row " ++ toString row)

/-- Whether the lookup constraints hold at the openings of a table. -/
def requireOpenedConstraints (traces : PerTable Trace) (run : ProverRun)
    (opened : PerTable (List (OpenedProduct Cubic Goldilocks))) (table : Table) : Run Unit :=
  let openings := run.openings.get table
  let acc := checkLookups ⟨openings.current, openings.next⟩ (opened.get table)
    (.start alphas (.ofRow 0 (traces.get table).height))
  if acc.allZero then
    pure ()
  else
    throw ("CTL constraints fail at the openings of " ++ table.name)

/-- The number of gates of the verifier circuit, if it is satisfied. -/
def verifierCircuit (lookups : List Lookup) (firstRows extras : PerTable (List Goldilocks))
    (challenges : Nat) : Run Nat := do
  let posed := (verifyGivenLookups lookups firstRows extras challenges).pose
  orFail VerifyError.message posed.result
  let inputs ← orFail WitnessError.message posed.assigned
  if posed.circuit.isSatisfied inputs then
    return posed.circuit.gates.size
  else
    throw "Recursive cross-table verifier circuit is not satisfied"

/-- All steps of the demonstration. -/
def steps (allocate : Allocator) (options : Options) (config : Config) (threads : Int32) :
    Run Unit := do
  say "=== starkctl memory-bus demo ==="
  say ("  CPU rows: " ++ toString options.rows.toNat ++ ", seed: " ++
    toString options.seed.toNat ++ ", challenges: " ++ toString config.challenges.toNat ++
    ", threads: " ++ toString threads.toInt)
  let sample ← generateSample allocate options.rows.toNat options.seed
  let memoryTrace := sample.traces.get .memory
  say ("Step 1: sample generated (" ++ toString memoryTrace.height ++ " Memory rows)")
  requireBusConstraints (sample.traces.get .cpu)
  say "Step 2: membus constraints hold on every CPU row"
  let challenges := config.challenges.toNat
  let lookups := [MemoryBus.memoryLookup]
  let run ← proveSample allocate sample lookups challenges
  say ("Step 3: built " ++ toString (run.products.get .cpu).length ++ " CPU and " ++
    toString (run.products.get .memory).length ++ " Memory Z polynomials")
  tables.forM (requireRowConstraints sample.traces run)
  say "Step 4: CTL constraints hold on every row"
  let opened ← orFail DistributionError.message
    (distribute run.openings lookups run.challenges run.reserved)
  tables.forM (requireOpenedConstraints sample.traces run opened)
  say "Step 5: CTL constraints hold at the openings"
  orFail VerifyError.message
    (verifyLookups lookups run.firstRows run.extraProducts challenges)
  say "Step 6: cross-table lookups verified"
  let gates ← verifierCircuit lookups run.firstRows run.extraProducts challenges
  say ("Step 7: recursive verifier circuit satisfied (" ++ toString gates ++ " gates)")
  say ""

/-- The environment variables that a run reads. -/
structure Environment where
  challenges : Option String
  workers : Option String
deriving DecidableEq

/-- What a run finds on its machine. -/
structure Machine where
  /-- The number of threads that the hardware runs at a time. -/
  hardwareThreads : Nat
  /-- What requests for room are answered. -/
  allocate : Allocator

/-- Load the configuration from its parsed file and run all steps. -/
def start (machine : Machine) (options : Options) (environment : Environment)
    (parsed : Option (Except String JsonValue)) : Run Unit := do
  let config ← orFail ConfigError.message
    (if options.configPath = "" then .ok .standard else Config.ofFile options.configPath parsed)
  let (result, config) := config.override environment.challenges environment.workers
  orFail ConfigError.message result
  steps machine.allocate options config
    (config.threads (optimalThreads environment.workers machine.hardwareThreads))

/-- The report of a run; after success its output ends where the time taken follows. -/
def report (machine : Machine) (options : Options) (environment : Environment)
    (parsed : Option (Except String JsonValue)) : Report :=
  if options.rows = 0 then
    ⟨"", "Error: --rows must be positive\n", 1⟩
  else
    match (start machine options environment parsed).run "" with
    | (.ok (), output) => ⟨output ++ "✓ Success!", "", 0⟩
    | (.error e, output) => ⟨output, e ++ "\n", 1⟩

end CrossLookup.Demo
