import CrossLookup.Text.Json
import CrossLookup.Text.LeadingNumber

/-!
# Configuration

The parameters of the lookup argument, taken from a parsed JSON file and overridden
by environment variables. Values already overridden stay when a later one fails.
-/

namespace CrossLookup

/-- The parameters of the lookup argument. -/
structure Config where
  /-- The number of independent challenges. -/
  challenges : UInt64
  /-- The number of worker threads; zero leaves the choice open. -/
  workers : UInt64
deriving DecidableEq

/-- A reason to refuse a configuration. -/
inductive ConfigError
  /-- The file cannot be opened. -/
  | unreadable (path : String)
  /-- The file does not hold a JSON text, in the wording of the parser. -/
  | malformed (path wording : String)
  /-- The JSON text is not an object. -/
  | notObject
  /-- A field is not a non-negative integer. -/
  | notCount (key : String)
  /-- No challenge would be drawn. -/
  | noChallenges
  /-- An environment variable is not a number. -/
  | notNumber (variableName value : String)
deriving DecidableEq, Repr

/-- The wording of a refusal. -/
def ConfigError.message : ConfigError → String
  | .unreadable path => "Could not open config file: " ++ path
  | .malformed path wording => "StarkConfig: " ++ path ++ ": " ++ wording
  | .notObject => "StarkConfig: expected a JSON object"
  | .notCount key => "StarkConfig: '" ++ key ++ "' must be a non-negative integer"
  | .noChallenges => "StarkConfig: num_challenges must be at least 1"
  | .notNumber variableName value =>
      "StarkConfig: " ++ variableName ++ " is not a number: " ++ value

namespace Config

/-- Two challenges and an open number of threads. -/
def standard : Config := ⟨2, 0⟩

/-- Require that some challenge is drawn. -/
def validate (config : Config) : Except ConfigError Unit :=
  if config.challenges = 0 then .error .noChallenges else .ok ()

/-- A field that counts something, with a default when it is absent. -/
def count (fields : List (String × JsonValue)) (key : String) (default : UInt64) :
    Except ConfigError UInt64 :=
  match fields.lookup key with
  | none => .ok default
  | some (.integer n) => if 0 ≤ n then .ok (.ofNat n.toNat) else .error (.notCount key)
  | some _ => .error (.notCount key)

/-- The configuration that a JSON value describes. -/
def ofJson : JsonValue → Except ConfigError Config
  | .object fields => do
      let challenges ← count fields "num_challenges" standard.challenges
      let workers ← count fields "num_worker_threads" standard.workers
      let config : Config := ⟨challenges, workers⟩
      config.validate
      return config
  | _ => .error .notObject

/-- The configuration that a file describes, given what its parser answers if it can be opened. -/
def ofFile (path : String) (parsed : Option (Except String JsonValue)) :
    Except ConfigError Config :=
  match parsed with
  | none => .error (.unreadable path)
  | some (.error wording) => .error (.malformed path wording)
  | some (.ok value) => ofJson value

/-- The environment variable of the number of challenges. -/
def challengesVariable : String := "STARKCTL_NUM_CHALLENGES"

/-- The environment variable of the number of threads. -/
def workersVariable : String := "OMP_NUM_THREADS"

/-- The value of an environment variable; an empty one counts as unset. -/
def environmentWord (variableName : String) (value : Option String) :
    Except ConfigError (Option UInt64) :=
  match value with
  | none => .ok none
  | some "" => .ok none
  | some text =>
      match LeadingNumber.ofChars? text.toList with
      | some n =>
          if n.rest = [] then
            .ok (some n.saturatedWord)
          else
            .error (.notNumber variableName text)
      | none => .error (.notNumber variableName text)

/-- Override values by the environment, and the configuration left after it. -/
def override (config : Config) (challenges workers : Option String) :
    Except ConfigError Unit × Config :=
  match environmentWord challengesVariable challenges with
  | .error e => (.error e, config)
  | .ok value =>
      let config := { config with challenges := value.getD config.challenges }
      match environmentWord workersVariable workers with
      | .error e => (.error e, config)
      | .ok value =>
          let config := { config with workers := value.getD config.workers }
          (config.validate, config)

end Config

/-- The thread count that the environment asks for, or half of the hardware threads. -/
def optimalThreads (workers : Option String) (hardwareThreads : Nat) : Int32 :=
  let requested : Int32 :=
    match workers.bind fun text => LeadingNumber.ofChars? text.toList with
    | some n => .ofInt n.clamped
    | none => 0
  if 0 < requested then requested else max 1 (.ofNat (hardwareThreads / 2))

/-- The thread count of a configuration, with a fallback when it leaves it open. -/
def Config.threads (config : Config) (optimal : Int32) : Int32 :=
  if 0 < config.workers then .ofInt config.workers.toNat else optimal

/-- Whether the value of a flag variable switches it on. -/
def flagEnabled (value : Option String) : Bool :=
  value = some "1" ∨ value = some "true"

end CrossLookup
