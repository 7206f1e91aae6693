/-
The options of the command line.

Options and the two places, for the template and the snippet, stand in any order.  Short options may
share one dash; an option with a setting takes it from what is left of its own argument or from the
next argument, which must not begin with a dash.  After `--` every argument is a place.  No option
but `--verbose` may be given twice.

* `Options.ofArgs` — the options that the arguments give, or why there are none.

Design notes: the arguments are read one after the other, and the first that makes no sense ends the
reading.  So a request for help counts only if everything before it made sense, but what is missing
or excludes each other is looked at after the last argument.
-/

namespace Transclude

/-- What a run of the program is asked for. -/
structure Options where
  template : String
  snippet : Option String := none
  list : Bool := false
  /-- The variables as JSON text. -/
  vars : Option String := none
  /-- A file with the variables as JSON text. -/
  varsFile : Option String := none
  configFile : Option String := none
  indented : Bool := false
  verbosity : Nat := 0
  deriving DecidableEq

namespace Options

/-- An option that is on or off. -/
inductive Switch where
  | list
  | pretty
  | verbose
  | help
  deriving DecidableEq

/-- An option that takes a text. -/
inductive Setting where
  | vars
  | varsFile
  | configFile
  deriving DecidableEq

/-- An option. -/
inductive Name where
  | switch (s : Switch)
  | setting (s : Setting)
  deriving DecidableEq

/-- The option with a long name. -/
def Name.ofLong? : String → Option Name
  | "list" => some (.switch .list)
  | "pretty" => some (.switch .pretty)
  | "verbose" => some (.switch .verbose)
  | "help" => some (.switch .help)
  | "vars" => some (.setting .vars)
  | "vars-file" => some (.setting .varsFile)
  | "config" => some (.setting .configFile)
  | _ => none

/-- The option with a short name. -/
def Name.ofShort? : Char → Option Name
  | 'l' => some (.switch .list)
  | 'p' => some (.switch .pretty)
  | 'v' => some (.switch .verbose)
  | 'h' => some (.switch .help)
  | 'c' => some (.setting .configFile)
  | _ => none

/-- Why there are no options to run with. -/
inductive Refusal where
  /-- Help was asked for. -/
  | help
  | misuse
  deriving DecidableEq

/-- The options so far. -/
structure Draft where
  template : Option String := none
  snippet : Option String := none
  list : Bool := false
  vars : Option String := none
  varsFile : Option String := none
  configFile : Option String := none
  indented : Bool := false
  verbosity : Nat := 0

namespace Draft

/-- The draft with a switch turned on. -/
def turnOn (d : Draft) : Switch → Except Refusal Draft
  | .list => if d.list then .error .misuse else .ok { d with list := true }
  | .pretty => if d.indented then .error .misuse else .ok { d with indented := true }
  | .verbose => .ok { d with verbosity := d.verbosity + 1 }
  | .help => .error .help

/-- The draft with a text for a setting; the name of a file is not empty. -/
def set (d : Draft) (text : String) : Setting → Except Refusal Draft
  | .vars =>
    if d.vars.isSome then .error .misuse else .ok { d with vars := some text }
  | .varsFile =>
    if d.varsFile.isSome || text.isEmpty then .error .misuse
    else .ok { d with varsFile := some text }
  | .configFile =>
    if d.configFile.isSome || text.isEmpty then .error .misuse
    else .ok { d with configFile := some text }

/-- The draft with a text in the next free place. -/
def place (d : Draft) (text : String) : Except Refusal Draft :=
  match d.template, d.snippet with
  | none, _ => if text.isEmpty then .error .misuse else .ok { d with template := some text }
  | some _, none => .ok { d with snippet := some text }
  | some _, some _ => .error .misuse

/-- The options, if nothing is missing and nothing excludes each other. -/
def finish (d : Draft) : Except Refusal Options :=
  match d.template with
  | none => .error .misuse
  | some template =>
    if d.vars.isSome && d.varsFile.isSome then .error .misuse
    else
      .ok ⟨template, d.snippet, d.list, d.vars, d.varsFile, d.configFile, d.indented,
        d.verbosity⟩

end Draft

/-- The draft after an argument, and the setting that takes its text from the next one. -/
abbrev Step := Except Refusal (Draft × Option Setting)

/-- Reads short options that share a dash. -/
def readShort (d : Draft) : List Char → Step
  | [] => .ok (d, none)
  | c :: cs =>
    match Name.ofShort? c with
    | none => .error .misuse
    | some (.switch s) =>
      match d.turnOn s with
      | .error e => .error e
      | .ok d' => readShort d' cs
    | some (.setting s) =>
      match cs with
      | [] => .ok (d, some s)
      | '=' :: text => (d.set (String.ofList text) s).map fun d' => (d', none)
      | text => (d.set (String.ofList text) s).map fun d' => (d', none)

/-- Reads a long option; only a setting has a text after an equals sign. -/
def readLong (d : Draft) (cs : List Char) : Step :=
  let name := cs.takeWhile (· != '=')
  match Name.ofLong? (String.ofList name), cs.drop name.length with
  | none, _ => .error .misuse
  | some (.switch s), [] => (d.turnOn s).map fun d' => (d', none)
  | some (.switch _), _ :: _ => .error .misuse
  | some (.setting s), [] => .ok (d, some s)
  | some (.setting s), _ :: text => (d.set (String.ofList text) s).map fun d' => (d', none)

/-- Whether an argument is one for a place or a setting: a single dash is. -/
def isText : List Char → Bool
  | '-' :: _ :: _ => false
  | _ => true

/-- Reads arguments for places only. -/
def readPlaces (d : Draft) (args : List String) : Except Refusal Draft := args.foldlM Draft.place d

/-- Reads arguments, the first of them for a setting if one waits for its text. -/
def readArgs : Draft → Option Setting → List String → Except Refusal Draft
  | d, none, [] => .ok d
  | _, some _, [] => .error .misuse
  | d, some s, arg :: args =>
    if isText arg.toList then
      match d.set arg s with
      | .error e => .error e
      | .ok d' => readArgs d' none args
    else .error .misuse
  | d, none, arg :: args =>
    match arg.toList with
    | ['-', '-'] => readPlaces d args
    | '-' :: '-' :: cs =>
      match readLong d cs with
      | .error e => .error e
      | .ok (d', waiting) => readArgs d' waiting args
    | '-' :: c :: cs =>
      match readShort d (c :: cs) with
      | .error e => .error e
      | .ok (d', waiting) => readArgs d' waiting args
    | _ =>
      match d.place arg with
      | .error e => .error e
      | .ok d' => readArgs d' none args

/-- The options that arguments give. -/
def ofArgs (args : List String) : Except Refusal Options :=
  (readArgs {} none args).bind Draft.finish

end Options

end Transclude
