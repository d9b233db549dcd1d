import ContentStore.CommandLine.Arguments
import ContentStore.Ident.Basic

/-!
# Requests

What the arguments of the program ask for: a command with its own arguments,
after options that hold for all commands.
-/

namespace ContentStore.CommandLine

/-- How answers are written. -/
inductive Format where
  | yaml | json
  deriving DecidableEq, Repr

namespace Format

def ofName? (name : String) : Option Format :=
  if name = "yaml" then some yaml else if name = "json" then some json else none

end Format

/-- A field by its key, with a value as it was typed. -/
abbrev TypedField : Type := String × String

/-- What is to be done. -/
inductive Command where
  /-- List the models of the project. -/
  | models
  /-- Show the latest or the published versions of items. -/
  | get (ids : List ItemId) (published : Bool)
  /-- Show all versions of an item. -/
  | history (id : ItemId)
  /-- Create an item of the model of that key. -/
  | create (model : String) (fields : List TypedField) (asJson : Bool) (metadata : Option ItemId)
  /-- Give new values to an item, which must still be at the version given. -/
  | update (id : ItemId) (fields : List TypedField) (asJson : Bool) (version : Option String)
  /-- Delete an item, or only show what that would delete. -/
  | delete (id : ItemId) (dryRun : Bool)
  | publish (ids : List ItemId)
  | unpublish (ids : List ItemId)
  | search (model : String) (keyword filter sort : Option String) (published : Bool)
    (offset : Nat) (limit : Option Nat)
  /-- Show the status of items. -/
  | status (ids : List ItemId)
  deriving DecidableEq, Repr

/-- A command with the options in front of it. -/
structure Request where
  /-- Where the data is. -/
  directory : String
  format : Format
  project : ProjectId
  workspace : WorkspaceId
  user : UserId
  logEvents : Bool
  command : Command
  deriving DecidableEq, Repr

/-- A count of 64 bits, maybe with a plus sign. -/
def count? (text : String) : Option Nat :=
  let digits := match text.toList with
    | '+' :: cs => cs
    | cs => cs
  if digits.isEmpty || !digits.all Char.isDigit then none
  else (some (digits.foldl (fun n c => 10 * n + (c.toNat - 48)) 0)).filter fun n => n ≤ Number.largestNat64

/-- The options that hold for all commands. -/
def requestSignature : Signature where
  options := [.free "data-dir", ⟨"format", false, fun v => (Format.ofName? v).isSome⟩,
    .free "project", .free "workspace", .free "user"]
  flags := ["log-events"]
  words := .command
  tellsVersion := true

/-- A value for a field: key and value with an equals sign between them. -/
def fieldRule : OptionRule := ⟨"field", true, fun v => (splitPair? v.toList).isSome⟩

def countRule (name : String) : OptionRule := ⟨name, false, fun v => (count? v).isSome⟩

namespace Given

/-- Words as ids of items; one is needed. -/
def ids? (g : Given) : Option (List ItemId) :=
  if g.words.isEmpty then none else some (g.words.map Id.mk)

/-- The fields given, in order. -/
def fields (g : Given) : List TypedField :=
  (g.values "field").filterMap fun v => splitPair? v.toList

end Given

/-- Arguments of a command and how they make up the command; none if a word is
missing. -/
structure CommandForm where
  signature : Signature
  read? : Given → Option Command

namespace CommandForm

/-- A command on one or more items. -/
def onItems (flags : List String) (make : Given → List ItemId → Command) : CommandForm :=
  ⟨⟨[], flags, .many, false⟩, fun g => g.ids?.map (make g)⟩

/-- A command on one word. -/
def onOne (options : List OptionRule) (flags : List String) (make : Given → String → Command) :
    CommandForm :=
  ⟨⟨options, flags, .one, false⟩, fun g => g.words.head?.map (make g)⟩

/-- All commands by name. -/
def all : List (String × CommandForm) :=
  [("models", ⟨⟨[], [], .none, false⟩, fun _ => some .models⟩),
    ("get", onItems ["public"] fun g ids => .get ids (g.hasFlag "public")),
    ("history", onOne [] [] fun _ id => .history ⟨id⟩),
    ("create", onOne [fieldRule, .free "metadata"] ["json"] fun g model =>
      .create model g.fields (g.hasFlag "json") ((g.value? "metadata").map Id.mk)),
    ("update", onOne [fieldRule, .free "version"] ["json"] fun g id =>
      .update ⟨id⟩ g.fields (g.hasFlag "json") (g.value? "version")),
    ("delete", onOne [] ["dry-run"] fun g id => .delete ⟨id⟩ (g.hasFlag "dry-run")),
    ("publish", onItems [] fun _ ids => .publish ids),
    ("unpublish", onItems [] fun _ ids => .unpublish ids),
    ("search", onOne [.free "keyword", .free "filter", .free "sort", countRule "offset",
      countRule "limit"] ["public"] fun g model =>
        .search model (g.value? "keyword") (g.value? "filter") (g.value? "sort")
          (g.hasFlag "public") (((g.value? "offset").bind count?).getD 0)
          ((g.value? "limit").bind count?)),
    ("status", onItems [] fun _ ids => .status ids)]

/-- The form of the command of that name. -/
def named? (name : String) : Option CommandForm := all.lookup name

end CommandForm

/-- Help may be asked for about the program, about a command, and about
help. -/
def helpOn : List String → Stop
  | [] => .help
  | [name] => if name = "help" ∨ (CommandForm.named? name).isSome then .help else .misuse
  | _ => .misuse

namespace Request

/-- A command with the options given, the others at their defaults. -/
def ofGiven (g : Given) (command : Command) : Request where
  directory := (g.value? "data-dir").getD "."
  format := ((g.value? "format").bind Format.ofName?).getD .yaml
  project := ⟨(g.value? "project").getD "default"⟩
  workspace := ⟨(g.value? "workspace").getD "default"⟩
  user := ⟨(g.value? "user").getD "cli"⟩
  logEvents := g.hasFlag "log-events"
  command

/-- Reads a command of the form with that name. -/
def readCommand (name : String) (arguments : List String) : Except Stop Command :=
  match CommandForm.named? name with
  | none => .error .misuse
  | some form => do
    match form.read? (← scanAll form.signature arguments) with
    | some command => return command
    | none => throw .misuse

/-- Reads the arguments of the program. -/
def read (arguments : List String) : Except Stop Request := do
  let (g, rest) ← scan requestSignature .empty arguments
  match rest with
  | [] => throw .misuse
  | "help" :: names => throw (helpOn names)
  | name :: rest =>
    let command ← readCommand name rest
    return ofGiven (← g.settle requestSignature) command

end Request

end ContentStore.CommandLine
