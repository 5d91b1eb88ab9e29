-- SUMMARY: The script of a character and the scripts that it is used with.
import ObjectGraph.Text.Boundary

/-! # Scripts

A script is known by its number in the list of names.
-/

namespace ObjectGraph

namespace Text

structure Script where
  number : Nat
deriving DecidableEq, Repr

namespace Script

/-- The names of the scripts in lower case and without separators, the full name first. -/
def names : List (List String) :=
  [["adlam", "adlm"], ["ahom"], ["anatolianhieroglyphs", "hluw"], ["arabic", "arab"],
   ["armenian", "armn"], ["avestan", "avst"], ["balinese", "bali"], ["bamum", "bamu"],
   ["bassavah", "bass"], ["batak", "batk"], ["bengali", "beng"], ["bhaiksuki", "bhks"],
   ["bopomofo", "bopo"], ["brahmi", "brah"], ["braille", "brai"], ["buginese", "bugi"],
   ["buhid", "buhd"], ["canadianaboriginal", "cans"], ["carian", "cari"],
   ["caucasianalbanian", "aghb"], ["chakma", "cakm"], ["cham"], ["cherokee", "cher"],
   ["chorasmian", "chrs"], ["common", "zyyy"], ["coptic", "qaac", "copt"],
   ["cuneiform", "xsux"], ["cypriot", "cprt"], ["cyprominoan", "cpmn"], ["cyrillic", "cyrl"],
   ["deseret", "dsrt"], ["devanagari", "deva"], ["divesakuru", "diak"], ["dogra", "dogr"],
   ["duployan", "dupl"], ["egyptianhieroglyphs", "egyp"], ["elbasan", "elba"],
   ["elymaic", "elym"], ["ethiopic", "ethi"], ["georgian", "geor"], ["glagolitic", "glag"],
   ["gothic", "goth"], ["grantha", "gran"], ["greek", "grek"], ["gujarati", "gujr"],
   ["gunjalagondi", "gong"], ["gurmukhi", "guru"], ["han", "hani"], ["hangul", "hang"],
   ["hanifirohingya", "rohg"], ["hanunoo", "hano"], ["hatran", "hatr"], ["hebrew", "hebr"],
   ["hiragana", "hira"], ["imperialaramaic", "armi"], ["inherited", "qaai", "zinh"],
   ["inscriptionalpahlavi", "phli"], ["inscriptionalparthian", "prti"], ["javanese", "java"],
   ["kaithi", "kthi"], ["kannada", "knda"], ["katakana", "kana"], ["kawi"],
   ["kayahli", "kali"], ["kharoshthi", "khar"], ["khitansmallscript", "kits"],
   ["khmer", "khmr"], ["khojki", "khoj"], ["khudawadi", "sind"], ["lao", "laoo"],
   ["latin", "latn"], ["lepcha", "lepc"], ["limbu", "limb"], ["lineara", "lina"],
   ["linearb", "linb"], ["lisu"], ["lycian", "lyci"], ["lydian", "lydi"], ["mahajani", "mahj"],
   ["makasar", "maka"], ["malayalam", "mlym"], ["mandaic", "mand"], ["manichaean", "mani"],
   ["marchen", "marc"], ["masaramgondi", "gonm"], ["medefaidrin", "medf"],
   ["meeteimayek", "mtei"], ["mendekikakui", "mend"], ["meroiticcursive", "merc"],
   ["meroitichieroglyphs", "mero"], ["miao", "plrd"], ["modi"], ["mongolian", "mong"],
   ["mro", "mroo"], ["multani", "mult"], ["myanmar", "mymr"], ["nabataean", "nbat"],
   ["nagmundari", "nagm"], ["nandinagari", "nand"], ["newtailue", "talu"], ["newa"],
   ["nko", "nkoo"], ["nushu", "nshu"], ["nyiakengpuachuehmong", "hmnp"], ["ogham", "ogam"],
   ["olchiki", "olck"], ["oldhungarian", "hung"], ["olditalic", "ital"],
   ["oldnortharabian", "narb"], ["oldpermic", "perm"], ["oldpersian", "xpeo"],
   ["oldsogdian", "sogo"], ["oldsoutharabian", "sarb"], ["oldturkic", "orkh"],
   ["olduyghur", "ougr"], ["oriya", "orya"], ["osage", "osge"], ["osmanya", "osma"],
   ["pahawhhmong", "hmng"], ["palmyrene", "palm"], ["paucinhau", "pauc"], ["phagspa", "phag"],
   ["phoenician", "phnx"], ["psalterpahlavi", "phlp"], ["rejang", "rjng"], ["runic", "runr"],
   ["samaritan", "samr"], ["saurashtra", "saur"], ["sharada", "shrd"], ["shavian", "shaw"],
   ["siddham", "sidd"], ["signwriting", "sgnw"], ["sinhala", "sinh"], ["sogdian", "sogd"],
   ["sorasompeng", "sora"], ["soyombo", "soyo"], ["sundanese", "sund"],
   ["sylotinagri", "sylo"], ["syriac", "syrc"], ["tagalog", "tglg"], ["tagbanwa", "tagb"],
   ["taile", "tale"], ["taitham", "lana"], ["taiviet", "tavt"], ["takri", "takr"],
   ["tamil", "taml"], ["tangsa", "tnsa"], ["tangut", "tang"], ["telugu", "telu"],
   ["thaana", "thaa"], ["thai"], ["tibetan", "tibt"], ["tifinagh", "tfng"],
   ["tirhuta", "tirh"], ["toto"], ["ugaritic", "ugar"], ["unknown", "zzzz"], ["vai", "vaii"],
   ["vithkuqi", "vith"], ["wancho", "wcho"], ["warangciti", "wara"], ["yezidi", "yezi"],
   ["yi", "yiii"], ["zanabazarsquare", "zanb"]]

/-- The script of a name. -/
def ofName? (name : String) : Option Script := (names.findIdx? (·.contains name)).map (⟨·⟩)

def table : Partition := .ofText <| String.join
  ["AYcNcSbAYGcSbAYbVcSBYPcSBYFcSXYBcSbFYBcSrHYbNcSFYFMCYUcDeIbREYBbRDgACbREYBbRBgAEbRBYBbRBYBbR",
   "DgABbRBgABbRUgABbRcLZObRQbDfDcDCbDgNgABEbMgACEbYgACEDgABcAcDgAIcAbBgAEcAGgALDFYBDGYBDOYBDDYB",
   "DbGYBDKcDLDbAcDBDeEYBDbIfIOgABfIcIgACfIDDbWfTbYgAOdXcHgACdXDeWbUgACeWPgABdDbCgACdDBgABfILgAF",
   "DbFgABDCgAGDcWYBDbDbFdDcDEbFPYCbFbAKEgABKIgACKCgACKWgABKHgABKBgADKEgACKJgACKCgACKEgAIKBgAEKC",
   "gABKFgACKZgACbUDgABbUGgAEbUCgACbUWgABbUHgABbUCgABbUCgABbUCgACbUBgABbUFgAEbUCgACbUDgADbUBgAH",
   "bUEgABbUBgAHbURgAKbSDgABbSJgABbSDgABbSWgABbSHgABbSCgABbSFgACbSKgABbSDgABbSDgACbSBgAPbSEgACbS",
   "MgAHbSHgABeLDgABeLIgACeLCgACeLWgABeLHgABeLCgABeLFgACeLJgACeLCgACeLDgAHeLDgAEeLCgABeLFgACeLS",
   "gAKfPCgABfPGgADfPDgABfPEgADfPCgABfPBgABfPCgADfPCgADfPDgADfPMgAEfPFgADfPDgABfPEgACfPBgAGfPBgA",
   "OfPVgAFfSNgABfSDgABfSXgABfSQgACfSJgABfSDgABfSEgAHfSCgABfSDgACfSBgACfSEgACfSKgAHfSJcINgABcID",
   "gABcIXgABcIKgABcIFgACcIJgABcIDgABcIEgAHcICgAGcICgABcIEgACcIKgABcIDgAMdCNgABdCDgABdCbZgABdCD",
   "gABdCGgAEdCQgACdCbAgABfCDgABfCSgADfCYgABfCJgABfCBgACfCHgADfCBgAEfCGgABfCBgABfCIgAGfCKgACfCD",
   "gAMfUcGgAEYBfUbCgAbLcRCgABcRBgABcRFgABcRYgABcRBgABcRXgACcRFgABcRBgABcRHgABcRKgACcREgAbGfVcU",
   "gABfVbKgAEfVbNgABfVbKgABfVPgABfVHYEfVCgAbLdRgEbNbMgABbNBgAFbNBgACbNbRYBbNEbWjWbMcVgABbMEgAC",
   "bMHgABbMBgABbMEgACbMbPgABbMEgACbMbHgABbMEgACbMHgABbMBgABbMEgACbMPgABbMcFgABbMEgACbMcPgACbMbG",
   "gADbMbAgAGWdIgACWGgACRyQeAbDgADeVcXYDeVLgAHfJWgAJfJBbYVYCgAJQUgAMfKNgABfKDgABfKCgAMcOdQgACcO",
   "KgAGcOKgAGdOCYCdOBYBdOUgAGdOdLgAHdObRgAFRcSgAKcUbFgABcUMgAEcUMgAEcUBgADcUMfLbEgACfLFgALdVbS",
   "gAEdVbAgAGdVLgADdVCcObGPbCgACPCfMcLgABfMbDgACfMLgAGfMKgAGfMOgACcDbFgAbXGcZgADGbVgABfGcMJcAgA",
   "IJEcTcEgADcTPgADcTDeBbWbDJgAHbNbRgACbNDfGIgAIcDDYBcDNYBcDHYEcDBYGcDBYDcDCYBgAFcSbMbRFbDBcSbX",
   "bRFcSEbRFcSNbDBcScSbRBcDcMcSjWbRWgACbRGgACbRbMgACbRGgACbRIgABbRBgABbRBgABbRBgABbRbFgACbRcBgA",
   "BbRPgABbROgACbRGgABbRTgACbRDgABbRJgABYMcDCYdJgABYLcSBgACYLcSBYPgABcSNgADYbHgAPcDbHgAPYbMbRBY",
   "DcSCYGcSBYbBcSBYRcSbPYDgAEYzNgAZYLgAVYbjSOjWYyEgACYbGgABYeBbOdScSbGZeMgAFZHbNbMgABbNBgAFbNB",
   "gACfWcEgAHfWCgAOfWBbMXgAJbMHgABbMHgABbMHgABbMHgABbMHgABbMHgABbMHgABbMHgABbDbGYdQgAbIbVbAgAB",
   "bVdLgAMbViGgAbAYMgAEYFbVBYBbVBYZbVJcDEbWCYIbVEYEgABcBdIgACcDCYCcBDYBcJdMYCcJDgAFMbRgABbWdQgA",
   "BYQMbGYbKgAMcJQbWbFgABYcMbWbFYdDcJbVYBcJdKYgMbVjtOYcMbVbfbKgGbsVgADgGcDgAJcXbWgBlOgAUbDdSHdK",
   "gAIYbIcSdYYDcScMgAFcSCgABcSBgABcSFgAYcSOfHbTgADYKgAGeRcEgAIeXcSgAIeXMgAGbFbGcLbUYBcLBeUbKgAL",
   "eUBbWbDgADcGdAgABYBcGKgAEcGCdRbFgABVcDgAJVOgACVKgACVEdRbGfNcPgAYfNFdIXgAKbMGgACbMGgACbMGgAJ",
   "bMHgABbMHgABcSbRYBcSJbRBcSEYCgAEWdCdIbUgACdIKgAGbWqnSgAMbWXgAEbWbXgAmnCbVoCgACbVeCgAbMcSHgAM",
   "EFgAFcAbAgABcAFgABcABgABcACgABcACgABcAKDeLgAQDnZYCDdCgACDcCgAHDBgAbGDQcDQYKgAGcDObDCYbJgABYT",
   "gABYEgAEDFgABDfFgACYBgABYbGcSbAYGcSbAYLcJKYBcJbTYCbWbFgADbWGgACbWGgACbWGgACbWDgADYHgABYHgAKY",
   "FgACcWMgABcWbAgABcWTgABcWCgABcWPgACcWOgAbIcWeTgAFYDgAEYbTgADYJbRdBgABYNgADbRBgAbVYbTcDBgAfA",
   "cYbDgADSbXgAPcDBYbBgAEeDbKgAJeDDbPbBgAFeFbRgAFfZbEgABfZBeGbKgAEeGOgAbQbEdCeZbWeNbEgACeNKgAG",
   "eMbKgAEeMbKgAEbKbOgAITcAgALTBgCLgABgCPgABgCHgABgCCgABgCLgABgCPgABgCHgABgCCgAcPcVlZgAJcVWgAK",
   "cVIgAYcSGgABcSbQgABcSJgAcRbBGgACbBBgABbBbSgABbBCgADbBBgACbBBcCWgABcCJePbGdSbFgAIdSJgAbWbZTgA",
   "BbZCgAFbZFeSbCgADeSBcZbAgAFcZBgAcMdLbGdKYgAEdKUgACdKbUcMEgABcMCgAFcMIgABcMDgABcMbDgACcMDgAE",
   "cMKgAHcMJgAHeIbGeEbGgAbGdEbNgAEdEMgAJFcCgADFHcFWgACcFIcETgAFcEIeTSgAHeTEgAMeTHgAdCeJcVgAcDeC",
   "bZgANeCbZgAHeCGbXbOgAIbXKgAlIDbFgABgFbQgABgFDgACgFCgAcXDDeHbOgAIfDbQgAWeKbAgAbMXbCgAUbLXgAJN",
   "dAgAENbKgAJNBcHcPgAKcHBgACfEZgAHfEKgAGUcBgABUSgAIdAbNgAJeYdSgABfCUgALcPSgABcPbVgAcKdQHgABdQB",
   "gABdQEgABdQPgABdQLgAGcQcHgAFcQKgAGbQEgABbQIgACbQCgACbQWgABbQHgABbQCgABbQFgABcDBbQJgACbQCgAC",
   "bQDgACbQBgAGbQBgAFbQHgACbQHgADbQFgAfJdWdOgABdWFgAbEfXcUgAIfXKgAgKfAcCgACfAbMgAbIdNcRgALdNKgA",
   "GdONgATfOcGgAGfOKgAcCBbBgACBPgAEBXgAhDbHcIgAdWgEdFgAMgEBbGHgACbGBgACbGIgABbGCgABbGbEgABbGCgA",
   "CbGMgAJbGKgAcSdUIgACdUbUgACdULgAbBgHcUgAIfFdFgANRQeQcFgAHbFKgAjMLJgABLbTgABLOgAKLbDgADdFbGgA",
   "CdFWgABdFOgAcVdGHgABdGCgABdGbSgADdGBgABdGCgABdGJgAIdGKgAGbTGgABbTCgABbTbLgABbTCgABbTGgAHbTK",
   "gAlYdBZgAHcKRgABcKbPgADcKbCgAdIcXBgAPfPbYgANfPBbAbjMgAdYbAeHgABbAFgALbAhOgAdxKbCdVgANbJbqSgA",
   "fyGCwLgAmuBHvXgAHdPbFgABdPKgAEdPCfQdBgABfQKgAGIbEgACIGgAKeOcSgAKeOKgABeOHgABeOVgAFeOTgAbaMdH",
   "dNgAdXdMcXgAEdMcFgAHdMRgAcMfRBdYBbVCcNBgALbVCgAOfRjcAgAIfRbdOcNsCgAbQfRJgAnfRcJEgABcJHgABcJC",
   "gABcJBcBlBcJDgAPcBBgAbDcBDgACcJBgAOcJEgAIdYpGgAdkUbIeDgAFbINgADbIJgAHbIKgACbIEYEgAgyUcDbUgAC",
   "cDXgAJYeMgAcIYjMgAKYbNgACYcKcDDYRcDIYCcDHYbEcDEYcJgAVbRcSgAeSYUgAMYUgAMYdJgAJYZgAfFYdHgABYcT",
   "gABYCgACYBgACYCgACYEgABYMgABYBgABYHgABYcNgABYEgACYIgABYHgABYbCgABYEgABYFgABYBgADYHgABYnCgACY",
   "lGgACYbYfBzCgAPfBFgABfBPgAbqMcSbFgAGcSGgAiFbOHgABbORgACbOHgABbOCgABbOFgAFbDcKgAbHbDBgAeIdZbT",
   "gADdZOgACdZKgAEdZCgAmIfYbFgARgDcGgAFgDBgArWdTbQgAbcObMHgABbMEgABbMCgABbMPgABdJhPgACdJQgAbPA",
   "cYgAEAKgAEACgAbeFYcQgAcYYcJgAhMDEgABDbBgABDCgABDBgACDBgABDKgABDEgABDBgABDBgAGDBgAEDBgABDBgAB",
   "DBgABDDgABDCgABDBgACDBgABDBgABDBgABDBgABDBgABDCgABDBgACDEgABDHgABDEgABDEgABDBgABDKgABDRgAFDD",
   "gABDFgABDRgAcADCgAkKYbSgAEYdWgAMYPgACYPgABYPgABYbLgAKYgSgAcEYbAcBBYCgANYbSgAEYJgAHYCgAOYGgA",
   "fYYblWgAEYRgADYNgADYePgAEYdRgAGYMgAEYBgAPYMgAEYcEgAIYKgAGYbOgAIYbEgACYCgAdAYnCgAMYOgACYNgADY",
   "JgAHYbUgABYHgAIYOgAEYJgAHYJgAHYfRgABYcDgAbLYKgAbnQbVclfCgAbGbVgdUgAGbViOgACbVinQgAObVlbLgA",
   "epJbVuWgAcfYbVhhZgAFbVgfGgAbomxLYBgAbEYdSgAeYcDjGgA"]

/-- Scripts that share characters. -/
def shared : Array (List Nat) :=
  #[[29, 109], [29, 40], [29, 70], [3, 49, 101, 138, 149, 161], [3, 138, 149],
    [0, 3, 49, 101, 138, 149, 161], [0, 3, 49, 81, 82, 114, 123, 133, 138], [3, 138],
    [3, 149, 161], [3, 49], [10, 31, 42, 44, 46, 60, 70, 80, 115, 128, 145, 148, 153],
    [10, 31, 42, 44, 46, 60, 70, 80, 115, 145, 148, 153],
    [10, 31, 33, 42, 44, 45, 46, 60, 68, 78, 80, 84, 98, 115, 132, 137, 144, 145, 148, 153],
    [10, 31, 33, 42, 44, 45, 46, 60, 68, 72, 78, 80, 84, 98, 115, 132, 137, 144, 145, 148, 153],
    [31, 33, 59, 78], [10, 20, 137], [46, 94], [44, 67], [42, 145], [60, 98], [20, 95, 141],
    [39, 70], [16, 50, 139, 140], [92, 121], [10, 31, 42, 60], [31, 42], [10, 31], [31, 128],
    [31, 60, 80, 115, 145, 148], [31, 98], [10, 31, 42, 60, 98, 115, 148, 153], [31, 42, 60],
    [29, 138], [70, 92], [31, 42, 70], [12, 47, 48, 53, 61, 162], [12, 47, 48, 53, 61],
    [12, 47], [53, 61], [47, 53, 61], [47, 70],
    [31, 33, 44, 46, 59, 60, 67, 68, 78, 80, 91, 98, 144, 153],
    [31, 33, 44, 46, 59, 60, 67, 68, 78, 91, 98, 144, 153],
    [31, 33, 44, 46, 59, 67, 68, 78, 91, 144, 153], [31, 145], [63, 70, 95], [15, 58],
    [3, 101], [3, 149], [27, 28, 74], [27, 74], [27, 73, 74], [3, 25], [82, 114]]

/-- For every code point a script, or beyond their numbers scripts that share it. -/
def usage : Partition := .ofText <| String.join
  ["AYcNcSbAYGcSbAYbVcSBYPcSBYFcSXYBcSbFYBcSrHYbNcSFYFMCYUcDcObRBcDCbRBcDbDcSNbREYBbRDgACbREYBbR",
   "BgAEbRBYBbRBYBbRDgABbRBgABbRUgABbRcLZObRQbDfBgIBgJBgKCgJBbDgMgABEbMgACEbYgACEDgABcAcDgAIcAbB",
   "gAEcAGgALDFYBDGgLBDOgLBgMBDCgNBDbGgOBDKgPLDKgQKDGgPBDdVgRBDIYBDbIfIOgABfIcIgACfIDDbWfTbYgAO",
   "dXcHgACdXDeWbUgACeWPgABdDbCgACdDBgABfILgAFDbFgABDCgAGDcWYBDbDbFdDgSBgTBcDCbFPgUBgVBgWKbFQKE",
   "gABKIgACKCgACKWgABKHgABKBgADKEgACKJgACKCgACKEgAIKBgAEKCgABKFgACgXKKPgACbUDgABbUGgAEbUCgACbUW",
   "gABbUHgABbUCgABbUCgABbUCgACbUBgABbUFgAEbUCgACbUDgADbUBgAHbUEgABbUBgAHgYKbUHgAKbSDgABbSJgABbS",
   "DgABbSWgABbSHgABbSCgABbSFgACbSKgABbSDgABbSDgACbSBgAPbSEgACgZKbSCgAHbSHgABeLDgABeLIgACeLCgAC",
   "eLWgABeLHgABeLCgABeLFgACeLJgACeLCgACeLDgAHeLDgAEeLCgABeLFgACeLSgAKfPCgABfPGgADfPDgABfPEgADfP",
   "CgABfPBgABfPCgADfPCgADfPDgADfPMgAEfPFgADfPDgABfPEgACfPBgAGfPBgAOhAOfPHgAFfSNgABfSDgABfSXgAB",
   "fSQgACfSJgABfSDgABfSEgAHfSCgABfSDgACfSBgACfSEgACfSKgAHfSJcINgABcIDgABcIXgABcIKgABcIFgACcIJgA",
   "BcIDgABcIEgAHcICgAGcICgABcIEgAChBKgABcIDgAMdCNgABdCDgABdCbZgABdCDgABdCGgAEdCQgACdCbAgABfCDgA",
   "BfCSgADfCYgABfCJgABfCBgACfCHgADfCBgAEfCGgABfCBgABfCIgAGfCKgACfCDgAMfUcGgAEYBfUbCgAbLcRCgABcR",
   "BgABcRFgABcRYgABcRBgABcRXgACcRFgABcRBgABcRHgABcRKgACcREgAbGfVcUgABfVbKgAEfVbNgABfVbKgABfVPgA",
   "BfVHYEfVCgAbLdRcMhCKdRdIbNbMgABbNBgAFbNBgACbNbRhDBbNEbWjWbMcVgABbMEgACbMHgABbMBgABbMEgACbMbP",
   "gABbMEgACbMbHgABbMEgACbMHgABbMBgABbMEgACbMPgABbMcFgABbMEgACbMcPgACbMbGgADbMbAgAGWdIgACWGgACR",
   "yQeAbDgADeVcXYDeVLgAHfJWgAJfJBbYVhECgAJQUgAMfKNgABfKDgABfKCgAMcOdQgACcOKgAGcOKgAGdOChFCdOBhF",
   "BdOUgAGdOdLgAHdObRgAFRcSgAKcUbFgABcUMgAEcUMgAEcUBgADcUMfLbEgACfLFgALdVbSgAEdVbAgAGdVLgADdVC",
   "cObGPbCgACPCfMcLgABfMbDgACfMLgAGfMKgAGfMOgACcDbFgAbXGcZgADGbVgABfGcMJcAgAIJEcTcEgADcTPgADcTD",
   "eBbWbDJgAHbNbRgACbNDfGIgAIhGBbFBhGBhHBbFBhIChJBhIBhJBhKBbFBhJCbFChJBhIBbFHhLBhIBbFChIBbFEhMB",
   "hHBhNBhICKBhHCdUBgAFcSbMbRFbDBcSbXbRFcSEbRFcSNbDBcScSbRDcDcChOBcDBfIBcDFcSjWbRWgACbRGgACbRbM",
   "gACbRGgACbRIgABbRBgABbRBgABbRBgABbRbFgACbRcBgABbRPgABbROgACbRGgABbRTgACbRDgABbRJgABYMcDCYbH",
   "hPBYcBgABYLcSBgACYLcSBYPgABcSNgADYbHgAPcDbGhQBgAPYbMbRBYDcSCYGcSBYbBcSBYRcSbPYDgAEYzNgAZYLgA",
   "VYbjSOjWYyEgACYbGgABYeBbOdScSbGZeMgAFZHbNbMgABbNBgAFbNBgACfWcEgAHfWCgAOfWBbMXgAJbMHgABbMHgAB",
   "bMHgABbMHgABbMHgABbMHgABbMHgABbMHgABbDbGYcPgJBYbAgAbIbVbAgABbVdLgAMbViGgAbAYMgAEYBhRChSBYBbV",
   "DhRKYBhSBhRIhSEYBbVJhTEbWChSBhUFYBhSBbVEhVCbVCgABcBdIgAChUEcBDhUBcJdMhRBhUBcJDgAFMbRgABbWdQ",
   "gABbVQMbGbVbKgAMcJQbWbFgABbVbOYYbWbFYBbVbXYPbVMYEcJbVbVBcJdKbVZYKbVFYdSbVbFYBbVjtOYcMbVbfbK",
   "gGbsVgADgGcDgAJcXbWgBlOgAUbDbVgJBbDbWHdKgAIhWIYbAcSdYYDcScMgAFcSCgABcSBgABcSFgAYcSOfHbTgADhX",
   "DhYDhZEgAGeRcEgAIeXcSgAIeXMgAGbFRhIBbFBiABbFMcLbUiBBcLBeUbKgALeUBbWbDgADcGdAgABiCBcGKgAEcGC",
   "dRbFgABVcDgAJVOgACVKgACVEdRbGfNcPgAYfNFdIXgAKbMGgACbMGgACbMGgAJbMHgABbMHgABcSbRYBcSJbRBcSEYC",
   "gAEWdCdIbUgACdIKgAGbWqnSgAMbWXgAEbWbXgAmnCbVoCgACbVeCgAbMcSHgAMEFgAFcAbAgABcAFgABcABgABcACgA",
   "BcACgABcAKDeLgAQDnZiDCDdCgACDcCgAHDBgAbGDCiEBDKiEBDCcDQYKgAGcDObDCYVhSCYMgABYTgABYEgAEDFgABD",
   "fFgACYBgABYbGcSbAYGcSbAYGhRFcJKhUBcJbThUCbWbFgADbWGgACbWGgACbWGgACbWDgADYHgABYHgAKYFgACcWMgA",
   "BcWbAgABcWTgABcWCgABcWPgACcWOgAbIcWeTgAFiFCiGBgAEiHbTgADiGJbRdBgABYNgADbRBgAbVYbTcDBgAfAcYbD",
   "gADSbXgAPiIbCgAEeDbKgAJeDDbPbBgAFeFbRgAFfZbEgABfZBeGbKgAEeGOgAbQbEdCeZbWeNbEgACeNKgAGeMbKgAE",
   "eMbKgAEbKbOgAITcAgALTBgCLgABgCPgABgCHgABgCCgABgCLgABgCPgABgCHgABgCCgAcPcVlZgAJcVWgAKcVIgAYcS",
   "GgABcSbQgABcSJgAcRbBGgACbBBgABbBbSgABbBCgADbBBgACbBBcCWgABcCJePbGdSbFgAIdSJgAbWbZTgABbZCgAF",
   "bZFeSbCgADeSBcZbAgAFcZBgAcMdLbGdKYgAEdKUgACdKbUcMEgABcMCgAFcMIgABcMDgABcMbDgACcMDgAEcMKgAHcM",
   "JgAHeIbGeEbGgAbGdEbNgAEdEHiJBdEEgAJFcCgADFHcFWgACcFIcETgAFcEIeTSgAHeTEgAMeTHgAdCeJcVgAcDeCbZ",
   "gANeCbZgAHeCGbXbOgAIbXKgAlIDbFgABgFbQgABgFDgACgFCgAcXDDeHbOgAIfDbQgAWeKbAgAbMXbCgAUbLXgAJNdA",
   "gAENbKgAJNBcHcPgAKcHBgACfEZgAHfEKgAGUcBgABUSgAIdAbNgAJeYdSgABfCUgALcPSgABcPbVgAcKdQHgABdQBgA",
   "BdQEgABdQPgABdQLgAGcQcHgAFcQKgAGbQBhABbQBhABgABbQIgACbQCgACbQWgABbQHgABbQCgABbQFgABhACbQIgAC",
   "bQCgACbQDgACbQBgAGbQBgAFbQHgACbQHgADbQFgAfJdWdOgABdWFgAbEfXcUgAIfXKgAgKfAcCgACfAbMgAbIdNcRgA",
   "LdNKgAGdONgATfOcGgAGfOKgAcCBbBgACBPgAEBXgAhDbHcIgAdWgEdFgAMgEBbGHgACbGBgACbGIgABbGCgABbGbEgA",
   "BbGCgACbGMgAJbGKgAcSdUIgACdUbUgACdULgAbBgHcUgAIfFdFgANRQeQcFgAHbFKgAjMLJgABLbTgABLOgAKLbDgAD",
   "dFbGgACdFWgABdFOgAcVdGHgABdGCgABdGbSgADdGBgABdGCgABdGJgAIdGKgAGbTGgABbTCgABbTbLgABbTCgABbTG",
   "gAHbTKgAlYdBZgAHcKRgABcKbPgADcKbCgAdIcXBgAPfPQhACfPBhABfPbEgANfPBbAbjMgAdYbAeHgABbAFgALbAhO",
   "gAdxKbCdVgANbJbqSgAfyGCwLgAmuBHvXgAHdPbFgABdPKgAEdPCfQdBgABfQKgAGIbEgACIGgAKeOcSgAKeOKgABeOH",
   "gABeOVgAFeOTgAbaMdHdNgAdXdMcXgAEdMcFgAHdMRgAcMfRBdYBbVCcNBgALbVCgAOfRjcAgAIfRbdOcNsCgAbQfRJ",
   "gAnfRcJEgABcJHgABcJCgABcJBcBlBcJDgAPcBBgAbDcBDgACcJBgAOcJEgAIdYpGgAdkUbIeDgAFbINgADbIJgAHbIK",
   "gACbIIgAgyUcDbUgACcDXgAJYeMgAcIYjMgAKYbNgACYcKcDDYRcDIYCcDHYbEcDEYcJgAVbRcSgAeSYUgAMYUgAMYdJ",
   "gAJbVSYHgAfFYdHgABYcTgABYCgACYBgACYCgACYEgABYMgABYBgABYHgABYcNgABYEgACYIgABYHgABYbCgABYEgABY",
   "FgABYBgADYHgABYnCgACYlGgACYbYfBzCgAPfBFgABfBPgAbqMcSbFgAGcSGgAiFbOHgABbORgACbOHgABbOCgABbOF",
   "gAFbDcKgAbHbDBgAeIdZbTgADdZOgACdZKgAEdZCgAmIfYbFgARgDcGgAFgDBgArWdTbQgAbcObMHgABbMEgABbMCgAB",
   "bMPgABdJhPgACdJQgAbPAcYgAEAKgAEACgAbeFYcQgAcYYcJgAhMDEgABDbBgABDCgABDBgACDBgABDKgABDEgABDBgA",
   "BDBgAGDBgAEDBgABDBgABDBgABDDgABDCgABDBgACDBgABDBgABDBgABDBgABDBgABDCgABDBgACDEgABDHgABDEgABD",
   "EgABDBgABDKgABDRgAFDDgABDFgABDRgAcADCgAkKYbSgAEYdWgAMYPgACYPgABYPgABYbLgAKYgSgAcEYbAcBBYCgAN",
   "YbSgAEYJgAHbVCgAOYGgAfYYblWgAEYRgADYNgADYePgAEYdRgAGYMgAEYBgAPYMgAEYcEgAIYKgAGYbOgAIYbEgACYC",
   "gAdAYnCgAMYOgACYNgADYJgAHYbUgABYHgAIYOgAEYJgAHYJgAHYfRgABYcDgAbLYKgAbnQbVclfCgAbGbVgdUgAGbV",
   "iOgACbVinQgAObVlbLgAepJbVuWgAcfYbVhhZgAFbVgfGgAbomxLYBgAbEYdSgAeYcDjGgA"]

end Script

/-- The script of a character. -/
def script (c : Char) : Script := ⟨Script.table.valueAt c.toNat⟩

/-- The scripts that a character is used with. -/
def scriptsOf (c : Char) : List Script :=
  let n := Script.usage.valueAt c.toNat
  if n < Script.names.length then [⟨n⟩]
  else (Script.shared[n - Script.names.length]?.getD []).map (⟨·⟩)

end Text

end ObjectGraph
