import NetReach.PathGraph.Basic

/-! # Arguments of the command line

The network is chosen first, by a file or by the name of an example; then comes a command with its
own options. The value of an option is the next argument, or is joined to the option, after `=` or
directly behind a single letter. Only failed links may be given several times, and then some of the
options may stand without a value. -/

namespace NetReach.Cli

/-- Where the network comes from. -/
inductive Source where
  | file (path : String)
  | example (name : String)
deriving DecidableEq, Repr

/-- A question about two subnets. -/
structure Query where
  dst : Subnet
  src : Subnet
  /-- The failed links, each like `R1:R2`. -/
  fail : List String
  variant : Variant
  /-- Print the edges of the graph. -/
  showEdges : Bool
  /-- Print the contracted graph. -/
  contract : Bool
deriving DecidableEq, Repr

/-- What to do with the network. -/
inductive Command where
  /-- Print the network and its domains. -/
  | model
  /-- Print the taint of all processes. -/
  | taint (s : Subnet)
  /-- Answer whether one subnet is reachable from another. -/
  | query (q : Query)
  /-- Check the cases of the network. -/
  | check (variant : Variant)
deriving DecidableEq, Repr

/-- The arguments of a call. -/
structure Arguments where
  source : Source
  command : Command
deriving DecidableEq, Repr

/-! ### Options -/

/-- An option, by its name and its letter if it has one. -/
structure OptionSpec where
  name : String
  letter : Option Char := none
  /-- A value belongs to the option. -/
  takesValue : Bool := true
  /-- The option may be given several times. -/
  repeatable : Bool := false

/-- What is given to a command: options in order, each with its value if it has one, and other
arguments in order. -/
structure Given where
  options : List (String × Option String) := []
  others : List String := []

namespace Given

/-- The values of an option in order. -/
def all (g : Given) (name : String) : List String :=
  (g.options.filter (·.1 = name)).filterMap (·.2)

/-- The value of an option. -/
def get? (g : Given) (name : String) : Option String := (g.all name).head?

/-- The option is given. -/
def has (g : Given) (name : String) : Bool := g.options.any (·.1 = name)

/-- Add an option, unless it is there and may not be repeated. -/
def addOption? (g : Given) (o : OptionSpec) (value : Option String) : Option Given :=
  if g.has o.name && !o.repeatable then none
  else some { g with options := g.options ++ [(o.name, value)] }

/-- Add another argument. -/
def addOther (g : Given) (a : String) : Given := { g with others := g.others ++ [a] }

/-- Every option that needs a value has one somewhere. -/
def isComplete (g : Given) (known : List OptionSpec) : Bool :=
  known.all fun o => !o.takesValue || !g.has o.name || !(g.all o.name).isEmpty

end Given

/-- The option that an argument names, with the value joined to it. -/
def optionOf? (known : List OptionSpec) (arg : String) : Option (OptionSpec × Option String) :=
  match arg.toList with
  | '-' :: '-' :: cs => do
    let o ← known.find? (·.name.toList = cs.takeWhile (· ≠ '='))
    match cs.dropWhile (· ≠ '=') with
    | [] => some (o, none)
    | _ :: value => some (o, some (String.ofList value))
  | '-' :: c :: cs => do
    let o ← known.find? (·.letter = some c)
    match cs with
    | [] => some (o, none)
    | '=' :: value => some (o, some (String.ofList value))
    | value => some (o, some (String.ofList value))
  | _ => none

/-- The argument has the form of an option. A single dash is a value like any other. -/
def looksLikeOption (arg : String) : Bool := arg.toList.head? = some '-' && arg ≠ "-"

/-- Add the options at the front of the arguments, and tell the arguments behind them. With `all`,
other arguments are added as well; two dashes stand before arguments that are all of this kind. The
value of an option is missing if the next argument has the form of an option. -/
def collect? (known : List OptionSpec) (all : Bool) :
    Given → List String → Option (Given × List String)
  | g, [] => some (g, [])
  | g, arg :: args =>
    if arg = "--" then
      if all then some ({ g with others := g.others ++ args }, []) else none
    else if looksLikeOption arg then
      match optionOf? known arg with
      | none => none
      | some (o, some value) =>
        if o.takesValue then (g.addOption? o (some value)).bind (collect? known all · args)
        else none
      | some (o, none) =>
        match args with
        | [] => (g.addOption? o none).map (·, [])
        | next :: rest =>
          if o.takesValue && !looksLikeOption next then
            (g.addOption? o (some next)).bind (collect? known all · rest)
          else (g.addOption? o none).bind (collect? known all · (next :: rest))
    else if all then collect? known all (g.addOther arg) args
    else some (g, arg :: args)

/-- What is given at the front of the arguments, with the arguments behind it. -/
def gather? (known : List OptionSpec) (all : Bool) (args : List String) :
    Option (Given × List String) :=
  (collect? known all {} args).filter (·.1.isComplete known)

/-! ### Commands -/

/-- The options in front of the command. -/
def sourceOptions : List OptionSpec := [⟨"config", 'c', true, false⟩, ⟨"example", 'e', true, false⟩]

/-- The option that chooses the variant. -/
def variantOption : OptionSpec := ⟨"variant", 'v', true, false⟩

/-- The options of a query. -/
def queryOptions : List OptionSpec :=
  [⟨"dst", 'd', true, false⟩, ⟨"src", 's', true, false⟩, ⟨"fail", 'f', true, true⟩, variantOption,
    ⟨"show", none, false, false⟩, ⟨"contract", none, false, false⟩]

/-- The variant with a name. -/
def variantOfName? (s : String) : Option Variant :=
  if s = "coarse" then some .coarse else if s = "fine" then some .fine else none

/-- The chosen variant, coarse by default. -/
def Given.variant? (g : Given) : Option Variant :=
  variantOfName? ((g.get? "variant").getD "coarse")

/-- The command with its arguments. -/
def command? (name : String) (args : List String) : Option Command :=
  let gathered (known : List OptionSpec) : Option Given := (gather? known true args).map (·.1)
  if name = "model" then do
    let g ← gathered []
    if g.others.isEmpty then some .model else none
  else if name = "taint" then do
    match (← gathered []).others with
    | [s] => some (.taint s)
    | _ => none
  else if name = "query" then do
    let g ← gathered queryOptions
    let dst ← g.get? "dst"
    let src ← g.get? "src"
    let variant ← g.variant?
    if g.others.isEmpty then
      some (.query ⟨dst, src, g.all "fail", variant, g.has "show", g.has "contract"⟩)
    else none
  else if name = "check" then do
    let g ← gathered [variantOption]
    let variant ← g.variant?
    if g.others.isEmpty then some (.check variant) else none
  else none

/-- The arguments of a call, if they are in order. -/
def Arguments.of? (args : List String) : Option Arguments := do
  let (g, rest) ← gather? sourceOptions false args
  let source ←
    match g.get? "config", g.get? "example" with
    | some path, none => some (.file path)
    | none, some name => some (.example name)
    | _, _ => none
  match rest with
  | [] => none
  | name :: args => some ⟨source, ← command? name args⟩

end NetReach.Cli
