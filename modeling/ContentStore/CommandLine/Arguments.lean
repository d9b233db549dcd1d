/-!
# Arguments

Arguments are options with a value, flags, and words.  What is known at a place
is told by a signature; `scan` reads arguments against one.

A value stands behind its option, or in the same argument after an equals sign.
In the first case it is looked at when the next argument is met that is no
value.  So help is given in front of a fault, but not behind one.
-/

namespace ContentStore.CommandLine

/-- What an argument looks like. -/
inductive Argument where
  /-- Two hyphens: only words follow. -/
  | onlyWords
  | long (name : String) (value : Option String)
  | short (letter : Char)
  | word (text : String)
  deriving DecidableEq, Repr

/-- A text split at the first equals sign. -/
def splitPair? (cs : List Char) : Option (String × String) :=
  let key := cs.takeWhile (· != '=')
  match cs.drop key.length with
  | _ :: value => some (String.ofList key, String.ofList value)
  | [] => none

namespace Argument

/-- Reads the look of an argument.  A hyphen alone is a word. -/
def ofText (text : String) : Argument :=
  match text.toList with
  | ['-', '-'] => onlyWords
  | '-' :: '-' :: cs =>
    match splitPair? cs with
    | some (name, value) => long name (some value)
    | none => long (String.ofList cs) none
  | '-' :: c :: _ => short c
  | _ => word text

end Argument

/-- An option with a value. -/
structure OptionRule where
  name : String
  /-- It may be given more than once. -/
  repeats : Bool
  accepts : String → Bool

namespace OptionRule

/-- An option that takes any value once. -/
def free (name : String) : OptionRule := ⟨name, false, fun _ => true⟩

end OptionRule

/-- The words at a place. -/
inductive Words where
  | none | one | many
  /-- The first word is a command and ends the arguments of this place. -/
  | command
  deriving DecidableEq, Repr

/-- What is known at a place. -/
structure Signature where
  options : List OptionRule
  flags : List String
  words : Words
  /-- The version may be asked for. -/
  tellsVersion : Bool

/-- Why reading ends early. -/
inductive Stop where
  | help | version | misuse
  deriving DecidableEq, Repr

/-- What was given so far. -/
structure Given where
  options : List (String × String)
  flags : List String
  words : List String
  /-- An option whose value is still to be looked at. -/
  pending : Option (String × String)
  deriving DecidableEq, Repr

namespace Given

def empty : Given := ⟨[], [], [], none⟩

/-- The values of an option, in order. -/
def values (g : Given) (name : String) : List String :=
  (g.options.filter fun o => o.1 == name).map Prod.snd

/-- The value of an option that is given at most once. -/
def value? (g : Given) (name : String) : Option String := (g.values name).head?

def hasFlag (g : Given) (name : String) : Bool := g.flags.contains name

/-- Adds an option that is known, accepts the value and was not given too
often. -/
def addOption (s : Signature) (g : Given) (name value : String) : Except Stop Given :=
  match s.options.find? fun r => r.name == name with
  | none => .error .misuse
  | some r =>
    if r.accepts value && (r.repeats || (g.values name).isEmpty) then
      .ok { g with options := g.options ++ [(name, value)] }
    else .error .misuse

/-- Looks at the value that is pending. -/
def settle (s : Signature) (g : Given) : Except Stop Given :=
  match g.pending with
  | none => .ok g
  | some (name, value) => addOption s { g with pending := none } name value

/-- Adds a flag, which may be given once. -/
def addFlag (g : Given) (name : String) : Except Stop Given :=
  if g.hasFlag name then .error .misuse else .ok { g with flags := g.flags ++ [name] }

/-- Adds a word, if there is room for it. -/
def addWord (s : Signature) (g : Given) (word : String) : Except Stop Given :=
  if s.words = .many ∨ (s.words = .one ∧ g.words = []) then
    .ok { g with words := g.words ++ [word] }
  else .error .misuse

end Given

/-- Asking for help or for the version, if that is what a name stands for. -/
def Signature.question? (s : Signature) (name : String) : Option Stop :=
  if name = "help" then some .help
  else if name = "version" ∧ s.tellsVersion then some .version
  else none

/-- What a single letter asks for. -/
def Signature.letterQuestion (s : Signature) (letter : Char) : Stop :=
  if letter = 'h' then .help
  else if letter = 'V' ∧ s.tellsVersion then .version
  else .misuse

/-- Reads the name of an option or flag.  Told are what is given then, and
whether a value has to follow. -/
def readName (s : Signature) (g : Given) (name : String) (value? : Option String) :
    Except Stop (Given × Bool) := do
  let g ← g.settle s
  match s.flags.contains name, s.question? name, value? with
  | true, _, none => return (← g.addFlag name, false)
  | false, some q, none => throw q
  | false, none, some value => return (← g.addOption s name value, false)
  | false, none, none =>
    if s.options.any fun r => r.name == name then return (g, true) else throw .misuse
  | _, _, some _ => throw .misuse

/-- Reads the arguments of a place.  Where a command is expected, the rest
begins with it, and a value in front of it is still pending. -/
def scan (s : Signature) : Given → List String → Except Stop (Given × List String)
  | g, [] => .ok (g, [])
  | g, a :: rest =>
    match Argument.ofText a with
    | .word w =>
      if s.words = .command then .ok (g, w :: rest)
      else match (g.settle s).bind fun g => g.addWord s w with
        | .ok g => scan s g rest
        | .error e => .error e
    | .onlyWords => ((g.settle s).bind fun g => rest.foldlM (Given.addWord s) g).map fun g => (g, [])
    | .short letter => (g.settle s).bind fun _ => .error (s.letterQuestion letter)
    | .long name value? =>
      match readName s g name value? with
      | .error e => .error e
      | .ok (g, false) => scan s g rest
      | .ok (g, true) =>
        match rest with
        | [] => .error .misuse
        | next :: rest =>
          match Argument.ofText next with
          | .word value => scan s { g with pending := some (name, value) } rest
          | _ => .error .misuse

/-- Reads the arguments of a place that has no command. -/
def scanAll (s : Signature) (arguments : List String) : Except Stop Given := do
  let (g, _) ← scan s .empty arguments
  g.settle s

end ContentStore.CommandLine
