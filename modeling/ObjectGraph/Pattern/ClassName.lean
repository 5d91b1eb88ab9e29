-- SUMMARY: Character sets by their Unicode names.
import ObjectGraph.Pattern.CharSet

/-! # Named classes

A class is named by a property, a general category or a script, or by one of
these and its value. Case, blanks, hyphens and underscores do not count in names,
nor does a leading `is`.
-/

namespace ObjectGraph

namespace Pattern

/-! ## Names -/

def lower (cs : List Char) : List Char := cs.map Char.toLower

/-- What counts of a name. The name of the comments property is kept apart from the
group of one letter that it would otherwise read as. -/
def plainName (name : List Char) : String :=
  let isPrefixed := lower (name.take 2) == ['i', 's']
  let body := if isPrefixed then name.drop 2 else name
  let kept := lower (body.filter fun c => c.toNat < 0x80 && c != ' ' && c != '_' && c != '-')
  if isPrefixed && kept == ['c'] then "isc" else String.ofList kept

/-! ## Categories -/

/-- The names of the general categories and their groups. -/
def categoryNames : List (List String × List Text.Category) :=
  [(["lu", "uppercaseletter"], [.uppercaseLetter]),
   (["ll", "lowercaseletter"], [.lowercaseLetter]),
   (["lt", "titlecaseletter"], [.titlecaseLetter]),
   (["lc", "casedletter"], [.uppercaseLetter, .lowercaseLetter, .titlecaseLetter]),
   (["lm", "modifierletter"], [.modifierLetter]),
   (["lo", "otherletter"], [.otherLetter]),
   (["l", "letter"],
    [.uppercaseLetter, .lowercaseLetter, .titlecaseLetter, .modifierLetter, .otherLetter]),
   (["mn", "nonspacingmark"], [.nonspacingMark]),
   (["mc", "spacingmark"], [.spacingMark]),
   (["me", "enclosingmark"], [.enclosingMark]),
   (["m", "mark", "combiningmark"], [.nonspacingMark, .spacingMark, .enclosingMark]),
   (["nd", "decimalnumber", "digit"], [.decimalNumber]),
   (["nl", "letternumber"], [.letterNumber]),
   (["no", "othernumber"], [.otherNumber]),
   (["n", "number"], [.decimalNumber, .letterNumber, .otherNumber]),
   (["pc", "connectorpunctuation"], [.connectorPunctuation]),
   (["pd", "dashpunctuation"], [.dashPunctuation]),
   (["ps", "openpunctuation"], [.openPunctuation]),
   (["pe", "closepunctuation"], [.closePunctuation]),
   (["pi", "initialpunctuation"], [.initialPunctuation]),
   (["pf", "finalpunctuation"], [.finalPunctuation]),
   (["po", "otherpunctuation"], [.otherPunctuation]),
   (["p", "punctuation", "punct"],
    [.connectorPunctuation, .dashPunctuation, .openPunctuation, .closePunctuation,
     .initialPunctuation, .finalPunctuation, .otherPunctuation]),
   (["sm", "mathsymbol"], [.mathSymbol]),
   (["sc", "currencysymbol"], [.currencySymbol]),
   (["sk", "modifiersymbol"], [.modifierSymbol]),
   (["so", "othersymbol"], [.otherSymbol]),
   (["s", "symbol"], [.mathSymbol, .currencySymbol, .modifierSymbol, .otherSymbol]),
   (["zs", "spaceseparator"], [.spaceSeparator]),
   (["zl", "lineseparator"], [.lineSeparator]),
   (["zp", "paragraphseparator"], [.paragraphSeparator]),
   (["z", "separator"], [.spaceSeparator, .lineSeparator, .paragraphSeparator]),
   (["cc", "control", "cntrl"], [.control]),
   (["cf", "format"], [.format]),
   (["cs", "surrogate"], [.surrogate]),
   (["co", "privateuse"], [.privateUse]),
   (["cn", "unassigned"], [.unassigned]),
   (["c", "other"], [.control, .format, .surrogate, .privateUse, .unassigned])]

/-- A category, a group, or one of the three sets that are named with them. -/
def categoryClass? (name : String) : Option CharSet :=
  if name = "any" then some .any
  else if name = "ascii" then some .ascii
  else if name = "assigned" then some (.compl (.category .unassigned))
  else (categoryNames.find? (·.1.contains name)).map fun (_, cs) => .ofCategories cs

/-! ## Other names of properties

Names of properties that are no sets of characters. They hide the categories and
scripts of the same name.
-/

/-- Properties with values that are not taken on their own. -/
def valuedNames : List String :=
  ["age", "bc", "bidiclass", "bidimirroringglyph", "bmg", "bidipairedbracket", "bpb",
   "bidipairedbrackettype", "bpt", "blk", "block", "canonicalcombiningclass", "ccc",
   "casefolding", "ce", "compositionexclusion", "compex", "fullcompositionexclusion",
   "decompositiontype", "dt", "dm", "decompositionmapping", "ea", "eastasianwidth",
   "equivalentunifiedideograph", "equideo", "expandsonnfc", "xonfc", "expandsonnfd", "xonfd",
   "expandsonnfkc", "xonfkc", "expandsonnfkd", "xonfkd", "fcnfkc", "fcnfkcclosure", "gc",
   "generalcategory", "gcb", "graphemeclusterbreak", "hangulsyllabletype", "hst",
   "indicpositionalcategory", "inpc", "indicsyllabiccategory", "insc", "isc", "isocomment",
   "jsn", "jamoshortname", "jg", "joininggroup", "jt", "joiningtype", "lb", "linebreak",
   "lowercasemapping", "na", "name", "na1", "unicode1name", "namealias", "nfcquickcheck",
   "nfcqc", "nfdquickcheck", "nfdqc", "nfkccasefold", "nfkccf", "nfkcquickcheck", "nfkcqc",
   "nfkdquickcheck", "nfkdqc", "nt", "numerictype", "nv", "numericvalue", "sb",
   "sentencebreak", "script", "scriptextensions", "scx", "sfc", "scf", "simplecasefolding",
   "simplelowercasemapping", "slc", "simpletitlecasemapping", "stc",
   "simpleuppercasemapping", "suc", "tc", "titlecasemapping", "uc", "uppercasemapping",
   "verticalorientation", "vo", "wb", "wordbreak"]

/-! ## Classes -/

/-- The class of a name alone. Of the names shared with properties, three mean the category. -/
def classOfName? (name : List Char) : Option CharSet :=
  let name := plainName name
  let isShared := ["cf", "sc", "lc"].contains name
  match if isShared then none else Text.Property.ofName? name with
  | some p => some (.property p)
  | none =>
    if !isShared && valuedNames.contains name then none
    else (categoryClass? name).orElse fun _ => (Text.Script.ofName? name).map .script

/-- The class of a property and its value. -/
def classOfValue? (name value : List Char) : Option CharSet :=
  let name := plainName name
  let value := plainName value
  if ["gc", "generalcategory"].contains name then categoryClass? value
  else if ["sc", "script"].contains name then (Text.Script.ofName? value).map .script
  else if ["scx", "scriptextensions"].contains name then (Text.Script.ofName? value).map .usedWith
  else none

/-! ## Bracketed names -/

/-- The classes of single bytes. -/
def asciiClasses : List (String × List (Char × Char)) :=
  [("alnum", [('0', '9'), ('A', 'Z'), ('a', 'z')]),
   ("alpha", [('A', 'Z'), ('a', 'z')]),
   ("ascii", [('\x00', '\x7f')]),
   ("blank", [('\t', '\t'), (' ', ' ')]),
   ("cntrl", [('\x00', '\x1f'), ('\x7f', '\x7f')]),
   ("digit", [('0', '9')]),
   ("graph", [('!', '~')]),
   ("lower", [('a', 'z')]),
   ("print", [(' ', '~')]),
   ("punct", [('!', '/'), (':', '@'), ('[', '\x60'), ('\x7b', '~')]),
   ("space", [('\t', '\r'), (' ', ' ')]),
   ("upper", [('A', 'Z')]),
   ("word", [('0', '9'), ('A', 'Z'), ('_', '_'), ('a', 'z')]),
   ("xdigit", [('0', '9'), ('A', 'F'), ('a', 'f')])]

def asciiClass? (name : List Char) : Option CharSet :=
  (asciiClasses.lookup (String.ofList name)).map .ofRanges

end Pattern

end ObjectGraph
