/-
Questbook/Package/Folder.lean

Reading packages from a tree of files.

Below the folder `packages` a package is a file `name.toml` or a folder `name` whose TOML files, at
any depth, are merged.  Entries are visited in ascending order of their names, so that a folder
comes before the file of its name and the later file wins where two declare the same; the order in
which a tree lists its entries does not matter.  A name with a dot is no package, a second entry of
a name is passed over, and a file that cannot be read or parsed contributes nothing.

What parses the text of a file is a parameter; `Toml.read?` is the one in use.  The names of entries
are texts: a tree with a name that is not text in UTF-8 is not represented.
-/
import Questbook.Package.Decode
import Questbook.Toml.Reader

namespace Questbook

/-- An entry of a tree of files; those of a folder have names. -/
inductive Entry where
  | file (content : ByteArray)
  | folder (entries : List (String × Entry))

namespace Entry

/-- Whether an entry is a folder. -/
def isFolder : Entry → Bool
  | file _ => false
  | folder _ => true

/-- The text of a file, if it is text. -/
def text? : Entry → Option String
  | file content => String.fromUTF8? content
  | folder _ => none

/-- Put an entry at a path, making the folders on the way.  A folder that is there stays. -/
def put (entry : Entry) : List String → List (String × Entry) → List (String × Entry)
  | [], entries => entries
  | [name], entries =>
    match entry, entries.find? (·.1 = name) with
    | folder _, some _ => entries
    | _, _ => entries.filter (·.1 ≠ name) ++ [(name, entry)]
  | name :: rest, entries =>
    let below := match entries.find? (·.1 = name) with
      | some (_, folder inner) => inner
      | _ => []
    entries.filter (·.1 ≠ name) ++ [(name, folder (put entry rest below))]

/-- The entries of a folder in ascending order of their names. -/
def ascending (entries : List (String × Entry)) : List (String × Entry) :=
  entries.mergeSort fun a b => Text.atMost a.1 b.1

/-- The name of a TOML file without its ending, which has to leave something. -/
def stem? (name : String) : Option String :=
  match name.toList.reverse with
  | 'l' :: 'm' :: 'o' :: 't' :: '.' :: c :: rest => some (String.ofList (c :: rest).reverse)
  | _ => none

mutual

/-- The TOML files of an entry, depth first in ascending order of names. -/
def tomlFiles (name : String) : Entry → List Entry
  | file content => if (stem? name).isSome then [file content] else []
  | folder entries => ((filesBelow entries).mergeSort fun a b => Text.atMost a.1 b.1).flatMap (·.2)

/-- The TOML files of each entry, with the name of the entry. -/
def filesBelow : List (String × Entry) → List (String × List Entry)
  | [] => []
  | (name, entry) :: rest => (name, tomlFiles name entry) :: filesBelow rest

end

/-- The package that an entry of the package folder names, and its files. -/
def package? (name : String) : Entry → Option (String × List Entry)
  | folder entries => some (name, tomlFiles name (folder entries))
  | file content => (stem? name).map (·, [file content])

/-- The package in a file, if it can be read. -/
def source? (parse : String → Option Json) (entry : Entry) : Option PackageSource := do
  let text ← entry.text?
  let value ← parse text
  PackageSource.ofJson? true value

/-- Whether a text can be the name of a package. -/
def isPackageName (name : String) : Bool := name ≠ "" && !name.toList.contains '.'

/-- The packages of a package folder. -/
def sources (parse : String → Option Json) (entries : List (String × Entry)) : Sources :=
  (ascending entries).foldl (fun s e =>
    match package? e.1 e.2 with
    | none => s
    | some (name, files) =>
      -- Names ascend, so that a folder comes before the file of the same package.
      if !isPackageName name || s.packages.contains name then s
      else (s.insert name ((files.filterMap (source? parse)).foldl PackageSource.merge .empty)).2)
    Sources.empty

/-- The packages of a data folder; nothing if it has no package folder, and no answer if what has
that name is a file. -/
def packages? (data : List (String × Entry)) (parse : String → Option Json := Toml.read?) :
    Option Sources :=
  match data.find? (·.1 = "packages") with
  | none => some Sources.empty
  | some (_, folder entries) => some (sources parse entries)
  | some (_, file _) => none

end Entry

end Questbook
