import StyleFlip.StringMap

/-!
The options of a run, their defaults, and when they are valid: every entry of the string map pairs at least one search
token with its replacement, and no token is empty.
-/
namespace StyleFlip

/-- A table from names to values; a name stands in it once. -/
abbrev Table (α : Type) := List (Text × α)

namespace Table

def get? {α : Type} (table : Table α) (name : Text) : Option α :=
  (table.find? fun (key, _) => key == name).map Prod.snd

/-- The table with a value under a name, in the place of an earlier one if there is one. -/
def put {α : Type} (table : Table α) (name : Text) (value : α) : Table α :=
  match table with
  | [] => [(name, value)]
  | (key, old) :: rest => if key = name then (key, value) :: rest else (key, old) :: put rest name value

end Table

/-- Where URL-like text is flipped. -/
inductive UrlScope where
  /-- Everywhere or nowhere. -/
  | all (enabled : Bool)
  /-- In the places that are named. -/
  | scoped (atRule : Bool)
deriving DecidableEq, Repr, Inhabited

/-- Whether the params of at-rules are flipped. -/
def UrlScope.atRules : UrlScope → Bool
  | .all enabled => enabled
  | .scoped atRule => atRule

structure Options where
  /-- Strip directive comments once they have been used. -/
  clean : Bool := true
  /-- Flip URL-like text. -/
  processUrls : UrlScope := .all false
  /-- Flip the selectors of rules in which no declaration was flipped. -/
  autoRename : Bool := false
  /-- Flip such selectors only in pairs. -/
  autoRenameStrict : Bool := false
  /-- Exchange the safe-area insets in values. -/
  processEnv : Bool := true
  /-- Exchange tokens inside words too. -/
  greedy : Bool := false
  /-- The names under which properties are looked up. -/
  aliases : Table Text := []
  /-- Control directives that are switched off, by plugin. -/
  blacklist : Table (Table Bool) := []
  /-- The tokens that are exchanged in selectors and URL-like text. -/
  stringMap : List MapEntry := defaultStringMap
deriving DecidableEq, Repr, Inhabited

/-- What is wrong with an entry of a string map. -/
inductive MapFault where
  | noSearch (entry : Text)
  | unequal (entry : Text) (search replace : Nat)
  | emptyToken (entry : Text)
deriving DecidableEq, Repr

/-- What a fault consists in. -/
def MapFault.reason : MapFault → String
  | .noSearch entry => "string_map entry \"" ++ String.ofList entry ++ "\" has no search tokens"
  | .unequal entry search replace =>
    "string_map entry \"" ++ String.ofList entry ++ "\" has " ++ toString search ++ " search tokens but " ++
      toString replace ++ " replace tokens"
  | .emptyToken entry => "string_map entry \"" ++ String.ofList entry ++ "\" contains an empty token"

def MapFault.message (fault : MapFault) : String := "Configuration error: " ++ fault.reason

def MapEntry.fault? (entry : MapEntry) : Option MapFault :=
  if entry.search.isEmpty then some (.noSearch entry.name)
  else if entry.search.length ≠ entry.replace.length then
    some (.unequal entry.name entry.search.length entry.replace.length)
  else if (entry.search ++ entry.replace).any List.isEmpty then some (.emptyToken entry.name)
  else none

namespace Options

def fault? (options : Options) : Option MapFault := options.stringMap.findSome? MapEntry.fault?

/-- The string map that the options ask for. -/
def map (options : Options) : StringMap := StringMap.ofEntries options.stringMap options.greedy

/-- The name under which a property is looked up, if it has another one. -/
def alias? (options : Options) (property : Text) : Option Text := options.aliases.get? property

/-- Whether a control directive of a plugin is switched off. -/
def disables (options : Options) (plugin directive : Text) : Bool :=
  ((options.blacklist.get? plugin).bind fun names => names.get? directive).getD false

end Options
end StyleFlip
