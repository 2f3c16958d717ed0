import NixRedox.NixStrings
import NixRedox.UnixPath

set_option autoImplicit false

/- The expression that evaluates a flake attribute: its sources are bound by a `let`, and the
outputs of the flake are applied to a set of them. -/
namespace NixRedox.Flake

open NixStrings (readBody readBody_plain readLiteral)

/-- An input with the place of its source. -/
structure ResolvedInput where
  name : List Char
  storePath : List Char
  deriving DecidableEq

structure Binding where
  identifier : List Char
  value : List Char
  deriving DecidableEq

/-- An attribute of the set, whose value is a bound identifier. -/
structure Argument where
  key : List Char
  identifier : List Char
  deriving DecidableEq

section Source

def resolveAttrPath (attr system : List Char) : List Char :=
  if '.' ∈ attr then
    attr
  else
    "packages.\"".toList ++ system ++ "\".".toList ++ attr

/-- A path without the `file:` prefix of Redox. -/
def stripFile (path : List Char) : List Char :=
  if "file:".toList <+: path then path.drop 5 else path

def nixPathLiteral (path : List Char) : List Char :=
  let s := stripFile path
  if s.head? = some '/' ∨ "./".toList <+: s then s else "./".toList ++ s

def nixSafeIdent (name : List Char) : List Char :=
  name.map (fun c => if c.isAlphanum ∨ c = '_' then c else '_')

def inputIdentifier (input : ResolvedInput) : List Char :=
  "__input_".toList ++ nixSafeIdent input.name

def inputBinding (input : ResolvedInput) : Binding where
  identifier := inputIdentifier input
  value := nixPathLiteral input.storePath

def inputArgument (input : ResolvedInput) : Argument where
  key := '"' :: input.name ++ ['"']
  identifier := inputIdentifier input

/-- What the `let` binds, in the order of the text. -/
def letBindings (flakeDirAbs : List Char) (inputs : List ResolvedInput) : List Binding :=
  ⟨"__flake".toList,
    "import ".toList ++ nixPathLiteral (UnixPath.join flakeDirAbs "flake.nix".toList)⟩ ::
    ⟨"__self".toList, nixPathLiteral flakeDirAbs⟩ :: inputs.map inputBinding

/-- The set that the outputs are applied to. -/
def outputArguments (inputs : List ResolvedInput) : List Argument :=
  ⟨"self".toList, "__self".toList⟩ :: inputs.map inputArgument

def Binding.line (binding : Binding) : List Char :=
  "  ".toList ++ binding.identifier ++ " = ".toList ++ binding.value ++ ";\n".toList

def Argument.line (argument : Argument) : List Char :=
  "    ".toList ++ argument.key ++ " = ".toList ++ argument.identifier ++ ";\n".toList

/-- `canonicalize` is what the file system makes of a path, when it finds it. -/
def buildFlakeEvalExpr (canonicalize : List Char → Option (List Char)) (flakeDir : List Char)
    (inputs : List ResolvedInput) (attrPath system : List Char) : List Char :=
  let flakeDirAbs := ((canonicalize flakeDir).map stripFile).getD flakeDir
  "let\n".toList ++ (letBindings flakeDirAbs inputs).flatMap Binding.line ++ "in\n".toList ++
    "  (__flake.outputs \x7b\n".toList ++ (outputArguments inputs).flatMap Argument.line ++
    "  \x7d).".toList ++ resolveAttrPath attrPath system ++ ['\n']

end Source

/-- A `let` over the outputs of a flake that are applied to a set. -/
structure Expression where
  bindings : List Binding
  arguments : List Argument
  selection : List Char

def Expression.text (expression : Expression) : List Char :=
  "let\n".toList ++ expression.bindings.flatMap Binding.line ++ "in\n".toList ++
    "  (__flake.outputs \x7b\n".toList ++ expression.arguments.flatMap Argument.line ++
    "  \x7d).".toList ++ expression.selection ++ ['\n']

/-- The expression that the text spells. -/
def flakeExpression (canonicalize : List Char → Option (List Char)) (flakeDir : List Char)
    (inputs : List ResolvedInput) (attrPath system : List Char) : Expression where
  bindings := letBindings (((canonicalize flakeDir).map stripFile).getD flakeDir) inputs
  arguments := outputArguments inputs
  selection := resolveAttrPath attrPath system

section Reading

/-- The attribute that a key of a set stands for: a quoted key is read as a string. -/
def attributeName (key : List Char) : List Char :=
  match readLiteral key with
  | .ok (name, []) => name
  | _ => key

/-- A name that means itself between quotes. Letters, digits, `_`, `-` and `.` do. -/
def PlainName (name : List Char) : Prop :=
  ∀ c ∈ name, c ≠ '"' ∧ c ≠ '\\' ∧ c ≠ '$'

/-- The identifiers that the attributes of a name have as their values. -/
def referents (arguments : List Argument) (name : List Char) : List (List Char) :=
  (arguments.filter (fun argument => attributeName argument.key = name)).map
    Argument.identifier

/-- Each identifier is bound once, and each input is the one attribute of its name, with the
binding for its own source. -/
structure OwnSources (inputs : List ResolvedInput) (expression : Expression) : Prop where
  distinct : (expression.bindings.map Binding.identifier).Nodup
  refers : ∀ input ∈ inputs, ∃ binding ∈ expression.bindings,
    referents expression.arguments input.name = [binding.identifier] ∧
      binding.value = nixPathLiteral input.storePath

end Reading

theorem nixPathLiteral_absolute {path : List Char} (absolute : path.head? = some '/') :
    nixPathLiteral path = path := by
  have kept : stripFile path = path := by
    obtain ⟨rest, rfl⟩ := List.head?_eq_some_iff.mp absolute
    simp [stripFile]
  rw [nixPathLiteral, kept]
  exact if_pos (.inl absolute)

theorem readBody_plainName {name : List Char} (plain : PlainName name) :
    readBody (name ++ ['"']) = .ok (name, []) := by
  induction name with
  | nil => rfl
  | cons c rest ih =>
      obtain ⟨quote, slash, dollar⟩ := plain c List.mem_cons_self
      have behind := ih (fun other inside => plain other (List.mem_cons_of_mem c inside))
      rw [List.cons_append, readBody_plain quote slash (fun opens => dollar opens.1), behind]
      rfl

/-- The attribute of an input is called by the name of the input. -/
theorem attributeName_inputArgument {input : ResolvedInput} (plain : PlainName input.name) :
    attributeName (inputArgument input).key = input.name := by
  have read : readLiteral ('"' :: (input.name ++ ['"'])) = .ok (input.name, []) :=
    readBody_plainName plain
  rw [attributeName, inputArgument, List.cons_append, read]

theorem attributeName_self : attributeName "self".toList = "self".toList := by
  decide

/-- The fixed names part from those of the inputs at their third letter. -/
theorem inputIdentifier_third (input : ResolvedInput) :
    (inputIdentifier input)[2]? = some 'i' := by
  have start : "__input_".toList = '_' :: '_' :: 'i' :: "nput_".toList := rfl
  have whole : inputIdentifier input =
      '_' :: '_' :: 'i' :: ("nput_".toList ++ nixSafeIdent input.name) :=
    congrArg (· ++ nixSafeIdent input.name) start
  simp [whole]

theorem ne_inputIdentifier {fixed : List Char} (third : fixed[2]? ≠ some 'i')
    (input : ResolvedInput) : inputIdentifier input ≠ fixed := by
  intro same
  exact third (same ▸ inputIdentifier_third input)

theorem inputs_identifiers (inputs : List ResolvedInput) :
    (inputs.map inputBinding).map Binding.identifier =
      (inputs.map (fun input => nixSafeIdent input.name)).map ("__input_".toList ++ ·) := by
  rw [List.map_map, List.map_map]
  rfl

theorem not_mem_inputs_identifiers {fixed : List Char} (third : fixed[2]? ≠ some 'i')
    (inputs : List ResolvedInput) :
    fixed ∉ (inputs.map inputBinding).map Binding.identifier := by
  rw [List.map_map, List.mem_map]
  rintro ⟨input, _, same⟩
  exact ne_inputIdentifier third input same

/-- The identifiers are distinct if and only if those of the inputs are. -/
theorem letBindings_nodup_iff (flakeDirAbs : List Char) (inputs : List ResolvedInput) :
    ((letBindings flakeDirAbs inputs).map Binding.identifier).Nodup ↔
      (inputs.map (fun input => nixSafeIdent input.name)).Nodup := by
  have apart : "__flake".toList ≠ "__self".toList := by decide
  have noFlake := @not_mem_inputs_identifiers "__flake".toList (by decide) inputs
  have noSelf := @not_mem_inputs_identifiers "__self".toList (by decide) inputs
  rw [letBindings, List.map_cons, List.map_cons, List.nodup_cons, List.nodup_cons, List.mem_cons,
    not_or]
  rw [and_iff_right ⟨apart, noFlake⟩, and_iff_right noSelf, inputs_identifiers,
    List.nodup_map_iff (List.append_right_injective _)]

/-- Among the attributes of the inputs, those of a name are those of the inputs with it. -/
theorem referents_inputs {inputs : List ResolvedInput}
    (plain : ∀ input ∈ inputs, PlainName input.name) (name : List Char) :
    referents (inputs.map inputArgument) name =
      (inputs.filter (fun input => input.name = name)).map inputIdentifier := by
  have same : inputs.filter (fun input => attributeName (inputArgument input).key = name) =
      inputs.filter (fun input => input.name = name) := by
    apply List.filter_congr
    intro input inside
    rw [attributeName_inputArgument (plain input inside)]
  rw [referents, List.filter_map, List.map_map, ← same]
  rfl

/-- The inputs with the name of one of them are that one. -/
theorem filter_name {inputs : List ResolvedInput} (named : (inputs.map (·.name)).Nodup)
    {input : ResolvedInput} (inside : input ∈ inputs) :
    inputs.filter (fun other => other.name = input.name) = [input] := by
  induction inputs with
  | nil => simp at inside
  | cons first rest ih =>
      rw [List.map_cons, List.nodup_cons] at named
      rcases List.mem_cons.mp inside with rfl | inside
      · have none : rest.filter (fun other => other.name = input.name) = [] := by
          rw [List.filter_eq_nil_iff]
          intro other behind
          have apart : other.name ≠ input.name :=
            fun same => named.1 (same ▸ List.mem_map_of_mem behind)
          simpa using apart
        rw [List.filter_cons_of_pos (by simp), none]
      · have apart : first.name ≠ input.name :=
          fun same => named.1 (same ▸ List.mem_map_of_mem inside)
        rw [List.filter_cons_of_neg (by simpa using apart), ih named.2 inside]

theorem referents_outputArguments {inputs : List ResolvedInput}
    (named : (inputs.map (·.name)).Nodup) (plain : ∀ input ∈ inputs, PlainName input.name)
    {input : ResolvedInput} (inside : input ∈ inputs) :
    referents (outputArguments inputs) input.name =
      if input.name = "self".toList then ["__self".toList, inputIdentifier input]
      else [inputIdentifier input] := by
  have others : referents (inputs.map inputArgument) input.name = [inputIdentifier input] := by
    rw [referents_inputs plain, filter_name named inside]
    rfl
  rw [referents] at others
  rw [referents, outputArguments, List.filter_cons, attributeName_self]
  by_cases own : input.name = "self".toList
  · rw [if_pos own, if_pos (by simp [own]), List.map_cons, others]
  · rw [if_neg own, if_neg (by simpa using Ne.symm own), others]

/-- With distinct names, each input gets its own source if and only if the names stay distinct
as identifiers and none of them is the name of the flake itself. -/
theorem ownSources_iff (canonicalize : List Char → Option (List Char)) (flakeDir : List Char)
    (inputs : List ResolvedInput) (attrPath system : List Char)
    (named : (inputs.map (·.name)).Nodup) (plain : ∀ input ∈ inputs, PlainName input.name) :
    buildFlakeEvalExpr canonicalize flakeDir inputs attrPath system =
        (flakeExpression canonicalize flakeDir inputs attrPath system).text ∧
      (OwnSources inputs (flakeExpression canonicalize flakeDir inputs attrPath system) ↔
        (inputs.map (fun input => nixSafeIdent input.name)).Nodup ∧
          ∀ input ∈ inputs, input.name ≠ "self".toList) := by
  refine ⟨rfl, ?_⟩
  constructor
  · rintro ⟨distinct, refers⟩
    refine ⟨(letBindings_nodup_iff _ inputs).mp distinct, ?_⟩
    intro input inside own
    obtain ⟨binding, _, one, _⟩ := refers input inside
    rw [flakeExpression, referents_outputArguments named plain inside, if_pos own] at one
    simp at one
  · rintro ⟨distinct, noSelf⟩
    refine ⟨(letBindings_nodup_iff _ inputs).mpr distinct, ?_⟩
    intro input inside
    refine ⟨inputBinding input, ?_, ?_, rfl⟩
    · exact List.mem_cons_of_mem _ (List.mem_cons_of_mem _ (List.mem_map_of_mem inside))
    · rw [flakeExpression, referents_outputArguments named plain inside,
        if_neg (noSelf input inside)]
      rfl

def sourceInput : ResolvedInput := ⟨"hello-src".toList, "/nix/store/abc-source".toList⟩

def sourceInputs : List ResolvedInput :=
  [⟨"nixpkgs".toList, "/nix/store/def-source".toList⟩, sourceInput]

theorem sourceInputs_plain : ∀ input ∈ sourceInputs, PlainName input.name := by
  have first : PlainName "nixpkgs".toList := by
    have spelled : "nixpkgs".toList = ['n', 'i', 'x', 'p', 'k', 'g', 's'] := rfl
    rw [spelled, PlainName]
    simp
  have second : PlainName "hello-src".toList := by
    have spelled : "hello-src".toList = ['h', 'e', 'l', 'l', 'o', '-', 's', 'r', 'c'] := rfl
    rw [spelled, PlainName]
    simp
  intro input inside
  rcases List.mem_pair.mp inside with rfl | rfl
  · exact first
  · exact second

/-- The expression for the greeting of a flake in a directory of its own. -/
def greetingExpression (inputs : List ResolvedInput) : Expression :=
  flakeExpression some "/tmp/myflake".toList inputs "hello".toList "x86_64-unknown-redox".toList

/-- Two inputs of the usual kind get their own sources. -/
theorem sourceInputs_own : OwnSources sourceInputs (greetingExpression sourceInputs) := by
  have named : (sourceInputs.map (·.name)).Nodup := by decide
  have distinct : (sourceInputs.map (fun input => nixSafeIdent input.name)).Nodup := by decide
  have noSelf : ∀ input ∈ sourceInputs, input.name ≠ "self".toList := by decide
  exact (ownSources_iff some "/tmp/myflake".toList sourceInputs "hello".toList
    "x86_64-unknown-redox".toList named sourceInputs_plain).2.mpr ⟨distinct, noSelf⟩

def clashingInputs : List ResolvedInput :=
  [sourceInput, ⟨"hello_src".toList, "/nix/store/ghi-source".toList⟩]

/-- The names `hello-src` and `hello_src` are bound to one identifier. -/
theorem hyphen_underscore_clash :
    ¬ OwnSources clashingInputs (greetingExpression clashingInputs) := by
  intro own
  have clash : ¬ (clashingInputs.map (fun input => nixSafeIdent input.name)).Nodup := by decide
  exact clash ((letBindings_nodup_iff _ _).mp own.distinct)

end NixRedox.Flake
