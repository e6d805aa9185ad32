import AccessControl.Text.Blank
import AccessControl.Text.Integer
import AccessControl.Text.Lower
import AccessControl.Text.Order
import AccessControl.Value

/-!
Settings. A value on the command line counts before one that is given directly, and this one before
one from the environment. Texts from the command line and from the environment stand for integers
and truth values where these are asked for.
-/

namespace AccessControl

structure Settings where
  env : String
  logLevel : String
  cacheUrl : String
  databaseName : String
  serviceName : String
  minConnections : Int
  maxConnections : Int
  usesCache : Bool
  rulesetTtl : Int
  entitlementTtl : Int
  listingPath : Option String

namespace Settings

inductive Kind where
  | text
  | optionalText
  | integer
  | truth

def truthWords : List String := ["1", "true", "on", "t", "y", "yes"]
def falsehoodWords : List String := ["0", "false", "off", "f", "n", "no"]

def word? (s : String) : Option Bool :=
  let s := Text.lower s
  if s ∈ truthWords then some true else if s ∈ falsehoodWords then some false else none

/-- Unicode white space; the separators of ASCII are not among it. -/
def isSpace (c : Char) : Bool :=
  Text.isBlank c && !(0x1C ≤ c.toNat && c.toNat ≤ 0x1F)

def trim (s : List Char) : List Char :=
  ((s.dropWhile isSpace).reverse.dropWhile isSpace).reverse

/-- Drops the zeros in front, and underscores between them, down to the last character. A sign may
follow them. -/
def withoutZeros (last : Char) : List Char → Option (List Char)
  | [] => some [last]
  | c :: rest =>
    if c = '0' ∨ c = '_' then withoutZeros c rest
    else if c.isDigit || c = '-' then some (c :: rest)
    else if c = '.' then some (last :: c :: rest)
    else none

def withoutPadding : List Char → Option (List Char)
  | '0' :: rest => withoutZeros '0' rest
  | c :: rest => if c.isDigit || c = '-' then some (c :: rest) else none
  | [] => none

def withoutZeroFraction (s : List Char) : List Char :=
  match s.span (· != '.') with
  | (whole, '.' :: d :: ds) => if (d :: ds).all (· == '0') then whole else s
  | _ => s

def hasDouble (x : Char) (s : List Char) : Bool :=
  (s.zip (s.drop 1)).contains (x, x)

def withoutUnderscores (s : List Char) : List Char :=
  if s.head? = some '_' ∨ s.getLast? = some '_' ∨ hasDouble '_' s then s
  else s.filter (· != '_')

def plain? (s : List Char) : Option (List Char) :=
  (withoutPadding s).map fun t => withoutUnderscores (withoutZeroFraction t)

def integerOfText? (s : String) : Option Int :=
  match trim s.toList with
  | '+' :: '-' :: _ => none
  | '-' :: rest => (plain? rest).bind fun t => Text.plainInt? ('-' :: t)
  | '+' :: rest => (plain? rest).bind Text.plainInt?
  | rest => (plain? rest).bind Text.plainInt?

/-- Integers that are given as real numbers stay within 63 bits. -/
def ofReal? (x : Binary64) : Option Int :=
  x.int?.filter fun n => n.natAbs < Nat.pow 2 63

def integer? : Value → Option Int
  | .bool b => some (if b then 1 else 0)
  | .int n => some n
  | .real x => ofReal? x
  | .text s => integerOfText? s
  | _ => none

def truth? : Value → Option Bool
  | .text s => word? s
  | v => match integer? v with
    | some 0 => some false
    | some 1 => some true
    | _ => none

def optionalText? : Value → Option (Option String)
  | .null => some none
  | .text s => some (some s)
  | _ => none

def Kind.accepts (v : Value) : Kind → Bool
  | .text => v.text?.isSome
  | .optionalText => (optionalText? v).isSome
  | .integer => (integer? v).isSome
  | .truth => (truth? v).isSome

def kinds : List (String × Kind) :=
  [("env", .text), ("log_level", .text), ("redis_url", .text), ("postgres_dsn", .text),
   ("service_name", .text), ("postgres_min_pool", .integer), ("postgres_max_pool", .integer),
   ("enable_grant_cache", .truth), ("grant_cache_ttl_seconds", .integer),
   ("entitlement_cache_ttl_seconds", .integer), ("entitlement_types_file", .optionalText)]

structure Reading where
  start : String
  /-- Names that differ in case only are different names. -/
  distinguishesCase : Bool
  /-- A variable that is empty counts as missing. -/
  ignoresEmpty : Bool
  absence : Option String

def Reading.ofGiven (given : Value.Fields) : Reading where
  start := ((given.valueOf "_env_prefix").text?).getD "PERMISSIONS_"
  distinguishesCase := (given.valueOf "_case_sensitive").truthy
  ignoresEmpty := (given.valueOf "_env_ignore_empty").truthy
  absence := (given.valueOf "_env_parse_none_str").text?

def Reading.key (r : Reading) (name : String) : String :=
  if r.distinguishesCase then name else Text.lower name

/-- The value of a setting in an environment. Of variables with names that count as equal, the last
one holds it. -/
def Reading.find? (r : Reading) (environment : List (String × String)) (name : String) :
    Option Value :=
  let present := environment.filter fun (k, v) =>
    r.key k = r.key (r.start ++ name) && !(r.ignoresEmpty && v = "")
  present.getLast?.map fun (_, v) => if r.absence = some v then .null else .text v

def option? : List Char → Option (String × Option String)
  | '-' :: '-' :: rest =>
    match rest.span (· != '=') with
    | (name, _ :: value) => some (String.ofList name, some (String.ofList value))
    | (name, []) => some (String.ofList name, none)
  | _ => none

def options : List String → List (String × String)
  | [] => []
  | word :: rest =>
    match option? word.toList, rest with
    | some (name, some value), rest => (name, value) :: options rest
    | some (name, none), value :: rest => (name, value) :: options rest
    | _, rest => options rest

def commandLine (given : Value.Fields) : List (String × String) :=
  (options (((given.valueOf "_cli_parse_args").texts?).getD [])).map fun (name, value) =>
    ((Reading.ofGiven given).key name, value)

def absence (given : Value.Fields) : String :=
  (given.valueOf "_cli_parse_none_str").text?.getD
    (if (given.valueOf "_cli_avoid_json").truthy then "None" else "null")

def optionOf (given : Value.Fields) (name : String) : String :=
  let start := match (given.valueOf "_cli_prefix").text? with
    | some "" | none => ""
    | some start => start ++ "."
  start ++ if (given.valueOf "_cli_kebab_case").truthy then
    name.map fun c => if c = '_' then '-' else c
  else name

/-- The value of a setting on a command line. A name may be cut short as far as it tells one option
from the others. Of options of one name, the last one counts. -/
def ofCommandLine? (given : Value.Fields) (name : String) : Option Value :=
  let isMeant (written : String) : Bool :=
    written ≠ "" && written.toList.isPrefixOf (optionOf given name).toList
  ((commandLine given).reverse.find? (isMeant ·.1)).map fun (_, v) =>
    if v = absence given then .null else .text v

/-- The value of a setting that is given directly. Of names that differ in case only, the first
counts. -/
def ofGiven? (given : Value.Fields) (name : String) : Option Value :=
  (given.find? fun (k, _) => Text.lower k = name).map Prod.snd

def find? (environment : List (String × String)) (given : Value.Fields) (name : String) :
    Option Value :=
  ofCommandLine? given name <|> ofGiven? given name <|>
    (Reading.ofGiven given).find? environment name

def invalid (find : String → Option Value) : List String :=
  Text.sorted ((kinds.filter fun (name, k) => (find name).any (!k.accepts ·)).map Prod.fst)

def gather (find : String → Option Value) : Settings :=
  let text (name default : String) := ((find name).bind Value.text?).getD default
  let integer (name : String) (default : Int) := ((find name).bind integer?).getD default
  { env := text "env" "local"
    logLevel := text "log_level" "info"
    cacheUrl := text "redis_url" "redis://localhost:6379/0"
    databaseName := text "postgres_dsn" "postgres://localhost:5432/access"
    serviceName := text "service_name" "permissions"
    minConnections := integer "postgres_min_pool" 2
    maxConnections := integer "postgres_max_pool" 10
    usesCache := ((find "enable_grant_cache").bind truth?).getD false
    rulesetTtl := integer "grant_cache_ttl_seconds" 300
    entitlementTtl := integer "entitlement_cache_ttl_seconds" 3600
    listingPath := ((find "entitlement_types_file").bind optionalText?).getD none }

def load (environment : List (String × String)) (given : Value.Fields) :
    Except (List String) Settings :=
  match invalid (find? environment given) with
  | [] => .ok (gather (find? environment given))
  | names => .error names

def fields (c : Settings) : Value.Fields :=
  [("env", .text c.env), ("log_level", .text c.logLevel), ("redis_url", .text c.cacheUrl),
   ("postgres_dsn", .text c.databaseName), ("service_name", .text c.serviceName),
   ("postgres_min_pool", .int c.minConnections), ("postgres_max_pool", .int c.maxConnections),
   ("enable_grant_cache", .bool c.usesCache),
   ("grant_cache_ttl_seconds", .int c.rulesetTtl),
   ("entitlement_cache_ttl_seconds", .int c.entitlementTtl),
   ("entitlement_types_file", .ofOption .text c.listingPath)]

/-- A letter in upper case, as far as ASCII has it: the dotless i, the long s and the ligatures of s
and t among them. -/
def upper (c : Char) : List Char :=
  if c = 'ı' then ['I'] else if c = 'ſ' then ['S'] else if c = 'ﬅ' ∨ c = 'ﬆ' then ['S', 'T']
  else [c.toUpper]

/-- The names that are looked up as levels; the last two name no level, but are found. -/
def logLevels : List String :=
  ["CRITICAL", "FATAL", "ERROR", "WARNING", "WARN", "INFO", "DEBUG", "NOTSET", "BASIC_FORMAT",
   "_STYLES"]

def knowsLogLevel (c : Settings) : Bool :=
  logLevels.contains (String.ofList (c.logLevel.toList.flatMap upper))

def listing (c : Settings) : Option String :=
  c.listingPath.filter (· ≠ "")

end Settings

end AccessControl
