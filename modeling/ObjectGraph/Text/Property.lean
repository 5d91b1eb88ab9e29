-- SUMMARY: Binary properties of characters.
import ObjectGraph.Text.Blank
import ObjectGraph.Text.Category

/-! # Binary properties

Most properties follow from the general category up to a short list of
exceptions; the lists are the tables here.
-/

namespace ObjectGraph

namespace Text

/-! ## Tables -/

namespace Table

def otherAlphabetic : CodeSet := .ofText <| String.join
  ["bgFBxUOBBBCBCBBcULbWNBHQBdXHEECCEBbJBbEQdYLdXCDJBDBEgLMDHGUcCCCPBCFDKCbDDcGHCCCCKBKCbDDcGFEC",
   "CCEBbECDBLDcGIBDBCVCWDEDcGHCCCCJCKCbEBcHFDDBDKBbOFcFHBDBDICLCbDDcGHBDBDICLCPBMEcGHBDBDKBKCbD",
   "DcXGBBBISCcJBCHSBdVBCGBCQBgHTJLBbKeGMBBCEXEEDBDCHDENMBBKEclOCbECbECbECcOThGCbIBeOMEJiOFcFKCU",
   "cWCLDbXFbWPcIDbEJCCcFLbYTqQOcoNcAdkGbGbtqAIbICnQBIBXFdKCbYQBBcFBbMFbCMbTEbWMbLBcPOMBICbTDbYB",
   "BDCCFBbSFFBjDIbdzVBdeDFcmGDBCFEbeIEoXCnBDcBObTCLDbTJJBcJDbKMSCcFDbWNOCdOJCBGBCBgBKXEcGHCCCCK",
   "BKCiBNBDeCSjDHCHbDCdEPBBeCLdZOjXNjNGBCCCDBBBfMHCGEBbCKbQFBESLbUOpRIBHdFWBOeSGDBBCBDBBDBcOFBC",
   "BEnKEJCBBbWHDDbeiGBBcDHEdPCbdaYBnkJHBRCHBCBFdWBdhVBczWbAGbAGbA"]

def otherLowercase : CodeSet :=
  .ofText "gOBPBtHJHCbEFdSBcABfcZBepZcLNBbIbLbaNBNBQNiDQbgQbAcwOCbugKCiCBeZDDCbhIEJBbiwSBCDBbQBJddzHcK"

def otherUppercase : CodeSet := .ofText "mqQQbgGbAgsiYbAGbAGbA"

def otherMath : CodeSet := .ofText <| String.join
  ["dQBbhXDCBbACCCkqYBbBDLBbGEYCOCcNNEBDCEFSBEBCKBBDFGBDCCCBDBGDEFFcXFCEBCBCBBBFCCECESCCBBBHBBGC",
   "lEEgMCBBYBRBrDCMJFFFCCCDFOBBBCGYCcFBBBbDEJCnECbFKpNWcLEbGCdclFBBBEBiDBBBdcoVdHBcTBCCBCCCEBMB",
   "BBHBcNBECIBHBbCBEBFBBDHBnCCZBZBbFBZBbFBZBbFBZBbFBZBICbYiiQEBbBBCBBCBBKBEBBBBGBEBBBBBBDBCBBCB",
   "BBBBBBBBBCBBCEBHBEBEBBBKBRFDBFBR"]

def otherGraphemeExtend : CodeSet :=
  .ofText "drYBYBnUBYBdYBYBjABSCdZBYBePBPBfbHBbvQBgcVCdaoKChlEBYBnGBMBjHBbiMBcrtSBIFbtlaZdS"

def otherIdStart : CodeSet := .ofText "jhLCdgJBVBfvWC"

def otherIdContinue : CodeSet := .ofText "hBBbbRBgaJJclCB"

def otherDefaultIgnorable : CodeSet :=
  .ofText "bgPBfiLCckHCdhNBglIBdacPBdBJbwmiHBBbEdSeYjGfiM"

def otherDash : CodeSet := .ofText "mgHBbNBPBpAB"

/-- Marks that may stand inside a word. -/
def wordInner : CodeSet := .ofText "bNBGBLBeUBbbRBsDBfSBjxJCKBCBdgbBBcKBCBgVBGBLB"

/-- Uppercase, or changed by lowercasing, but not both. -/
def lowercaseException : CodeSet := .ofText <| String.join
  ["rLBCBCBbMBsLDkmTIIIIIMBPBbVBkBBEBDDCDCBDFGBDBDCCCBBKCFBgiqKbAbAbAbAbAbABBCCBCCCEBIbAbAbACBEC",
   "IBHbBCBEBFBBDHbBbAbAbAbAbAbAbAbAbAbAbAbEZbHZbHZbHZbHZbHBjqBbAGbAGbA"]

/-- Lowercase, or changed by uppercasing, but not both. -/
def uppercaseException : CodeSet := .ofText <| String.join
  ["gOBPBeVBdGBNBOCOBDBGBCBCBbMBbUBSGbBBCBBBCDCBBBCBFCBBCCBHBCBBCDGFBBBICbAHCbEFfTBeZBnRBbNBeiTB",
   "eoHeRBDBQBbXiMCBBiYIIIIIMBPBbVBeMBNBQNeFBDCDBbBBEBEBCCIEefVBCBCHdYBbucLCfQCcKJVBGBZBbJBBBbCD",
   "DDbfPbJBHBObiwSBCDBbQBJczkHbAbAHBSbAbAbAEBBBHBLbAbAbAbAbAbAbAbAbAbAbAbAbAbAbAbAbAbCbCZBGbAZB",
   "GbAZBGbAZBGbAZBGBBcsYKBUGGkBcK"]

/-- Changed by titlecasing or by uppercasing, but not by both. -/
def titlecaseException : CodeSet := .ofText "rKCBCBCbLCfqJbRCDfnCIIIIIMBPBbVB"

/-- Changed by folding or by lowercasing, but not by both. -/
def foldingException : CodeSet :=
  .ofText "gZBbPBeBBcBBrLBeUBNCDCZCDBpLBfiUdICGdfUJuJCiUIIIIIKDCBKDCBbQDCBcavGdCbeaIHMF"

/-- Name starts that normalization does not keep so. -/
def unclosedStart : CodeSet :=
  .ofText "biGBebOBeXBmvVCczeFGpQCeMBBBBBBBBBBBBBBBlBC"

/-- Name characters that normalization does not keep so. -/
def unclosedContinue : CodeSet := .ofText "biGBrcICczeFGpQCeMBBBBBBBBBBBBBBB"

def graphemeLink : CodeSet := .ofText <| String.join
  ["dnPBeXBeXBeXBeXBeXBeXBeXBeFCQBeUBeHBeXBhTBgYCcpLCbEBgBBzDBiTBdXCcSCgqTBbukKBbLBfVBfMBeEBlXB",
   "jMBbjsRBchIBbPBOBcFBeRCfJBeMBgYBdUBjKBeXBjSBeXBeOBeMBkJBjZCgFBdFBSBdDBqFBkACdDBqJC"]

def asciiHexDigit : CodeSet := .ofText "bWKHGbAG"

def bidiControl : CodeSet := .ofText "ciEBjvLCbAFcDE"

def bidiMirrored : CodeSet := .ofText <| String.join
  ["bOCSBBBbCBBBbDBBBbTBPBfmSEcuNCdqQCKCcCCOCgVBhKEDGDBDCDEBEBBBBEJFBBSFEJCBBBICbFCEFBJCCTFCJFCC",
   "EYCQIEUCHCbpTOcWBCEBCBDFEFDDOpNWCGBOIBHGDBEFBCCFEBBDCCKGCCMTBECBBBCBBEFCGDYCLCEEBCCCEbRCIBbO",
   "FBBBDFFDEBDFBBjWBtVEDCBCOCCKbRIqLKCIdacRGFCgGCSBBBbCBBBbDBBBBCBCddpNBcFBcFBcFBcFB"]

def deprecated : CodeSet := .ofText "mRBbyVBdkTBBBdcJCdiJGbaVCbzryKB"

def diacritic : CodeSet := .ofText <| String.join
  ["dQBBBcTBGBEBCCtJgDBIFGRCEBJCjTFiBBcDRBbBBBBCBBfEIECfECECDDcPbBdNLcGLbICeWIbPKQbCcJBQBDEbCBcW",
   "BQBeGBQBeGBQBbVDcIBQBHBePBeGBQBeGBQBeFCQBeUBeUGBBeDBNFcXCbBBBBBBECcODBCcKBeIBBCbOCEFZHBBKC",
   "bbDDbkMCgXLJBnJDmBICBbWPCLeABPBbMJcCCfICcMGdEZEBGBCDbYcLdLMbLLrDBBDLDNDNDNCexKDmFBtMGeBEdRB",
   "bsmKBMCBBbCCdECObIdYDeFChUBbBScFEbKBdRBMBbKBfTDcNEbZBdWFJDeYCbdzSBbdPQkKBBBbVBbTCcPBbdKBbtNG",
   "BbQBJbfECvZGsBDcSLbXEhKBbPBcUCeQCcKBcYBJDeACgWCdDBQBYHDFhXBDBeTCjRCeWBeOCeLBkJCjYCEBgABdFBSB",
   "dDBqFBjYBBCdDBipJPurQFcHHbqURdCCygCEBHBCltHbUCXuYDDGIICHbEEfmWcKhMHoLBcJEcfWHeFDBD"]

def emoji : CodeSet := .ofText <| String.join
  ["bJBGBFKeHBEBlyRBMBiIBWBdMGPCoDCMBgKBZLEDhRBiXCKBJBcGEBFJBCBCCCBEBCBBCCBDBDCIDFBBBFMLCCBBCBBS",
   "BCCSGBBBCDCFBCCECLCFCCBFCBBBCUCFGBECBEBCBCGBBCBBBBBGBDBGBKCPBCBEBBBEDBBLCbWDJBOBOBoICrVDTCbZ",
   "BEBbvUBMBxDBBBgmrQBhUBgECMCOBCKcXbABCXBUBCJVCgSbICeICCBDCdFCDBkDBcLLGBYHCCIMBCECBECNCCBICJBF",
   "DMDIDCBBBEBGBDBGdIbWcSFICDEKDBBCDBCKiTMEBkXbVBKBhDeINDJHbUBHIOEJHJ"]

def emojiComponent : CodeSet := .ofText "bJBGBFKmbJBiFBdftRBdoiWbAtNFceAEbsvuQdS"

def emojiModifier : CodeSet := .ofText "hhiXF"

def emojiModifierBase : CodeSet := .ofText <| String.join
  ["olHBiLBQEgsjVBcIDCBCDeNCCLVTDBEDBDHBBBYBhTCEBVBECgSDDFdFBQDJBLBwDBCBIIGBJKCDcEBcJCBCBBRDBNiV",
   "DbQJ"]

def emojiPresentation : CodeSet := .ofText <| String.join
  ["nhQChXEDBCBuBCVCbYMbRBTBNBICRCFCIBFBVBHCBBEBCBHBECbCBbJBBBEDBBcJDYBOBbhBCbZBEBgplEBhUBhIBCK",
   "cXbABBYBUBCFBDVCgSbHMJBcSBWMbREFMRDBDcTBBBhFCcLNEBYSBbACNBdIdHbWcSGBDDCDEELCHJiTMEBkXbVBKBhD",
   "eINDJHbUBHIOEJHJ"]

def extendedPictographic : CodeSet := .ofText <| String.join
  ["gNBEBlyRBMBiIBWBdMGPCoDCMBdRBcSBZLEDhRBiXCKBJBcGEBGBMBeKKeOCLBBBBGBDBGBKCPBCBEBBBEDBBLFbTDJB",
   "OBOBoICrVDTCbZBEBbvUBMBxDBBBgmrMjWNDbFBcIGMCOBCKScFbBPKBUBCJBEJqSFmGIkGbWeYeMMdHbRMEcEIKGbOI",
   "bEdEMbVBKBqZjWbnI"]

def extender : CodeSet := .ofText <| String.join
  ["hBBuQCbhUBqZBbhABbcYBeXBdnFBcEBxNBpIBcQBhkJBbRFdZCdPDbqbUBcgSBblABWBfHBeEBVCbfzVBdbKCemSBxSD",
   "bvJBbeoFCbtKCBBbqyACdbAD"]

def hexDigit : CodeSet := .ofText "bWKHGbAGdslLKHGbAG"

def hyphen : CodeSet := .ofText "bTBeXBbvWBgzZBdbDCfiBBbcLBczuLBgNBdJB"

def idsBinaryOperator : CodeSet := .ofText "seACCI"

def idsTrinaryOperator : CodeSet := .ofText "seCC"

def ideographic : CodeSet :=
  .ofText "seWCZJODblDjtOcMbfbKbhsIoCCeCbsiKBbBjcAIbvQbQJnuLpGbdeIclfCbGgdUGiOCinQOlbLepJuWcfYhhZFgfG"

def joinControl : CodeSet := .ofText "mdOC"

def logicalOrderException : CodeSet := .ofText "fkIFeTFedSDCBccxMCCBBC"

def noncharacterCodePoint : CodeSet :=
  .ofText "dsdCbGuGCdsyOCdsyOCdsyOCdsyOCdsyOCdsyOCdsyOCdsyOCdsyOCdsyOCdsyOCdsyOCdsyOCdsyOCdsyOCdsyO"

def patternSyntax : CodeSet :=
  .ofText "bHPKHbAEBBbAEbIHBBBCBBBCEBEBDBXBbFBluEYIPCTBKlTbbSgEyGbEbrOtSeYoVDEZPBczqZCkBC"

def patternWhiteSpace : CodeSet := .ofText "JFSBdWBlyMCYC"

def prependedConcatenationMark : CodeSet := .ofText "chCGiHBbXBoUCdCBdvxYBPB"

def quotationMark : CodeSet := .ofText "bIBEBfBBPBlwUIZCfiDBrPENDdabPEhHBEBdMC"

def radical : CodeSet := .ofText "rpWbABdLMiG"

def regionalIndicator : CodeSet := .ofText "hgoKbA"

def sentenceTerminal : CodeSet := .ofText <| String.join
  ["bHBMBQBcaBBfRDgYBbRDjMBcJBBBDClHCcpWCbeKBECbdTBhQChWBFBmCCnQEgSCCCbDChGCcNCbkUCJDfgUBNBWCqNB",
   "bshWBkKCiTBDBoSCdICdRBfWCfRDfOCjPBbffIBDCgNBMBQBcNBedWCbxDFbSEhHCeNEeXDeZCGBQCdKCBCeEBqBCoJC",
   "FPeBCjPDtXBBBjRCdJCqECbaQCcWCbcmBCfDBcNCLBbgTBbdoGBliMB"]

def softDotted : CodeSet := .ofText <| String.join
  ["eBChOBkVBbEBcABUBmIBdUBBBjmNBbZBNBDBfCBgBBqFBiGCegGBgelHCbYCbYCbYCbYCbYCbYCbYCbYCbYCbYCbYCbY",
   "CdfYBlTCbAB"]

def terminalPunctuation : CodeSet := .ofText <| String.join
  ["bHBKBBBLCDBbfYBIBtTBcFBcUBOBBDgYBbRLBBjBCcCPbFBkBCbwUCgQBEGlZCbeJIbdTBeUDcTCgBDDBbNECCmCCnQE",
   "gSCBDbDChGFcKCbkUCJDfgUBNBEBKBBCDCqMCbshVCkJDiTFoSCdICdRBfVDfRDeXBQCjPBbffGDBEgNBKBBBLCDBcNB",
   "CBbpQBbWBbsOBhRBlYCfWGcQGdLEbkQFbSEhHHeIEeXDeZCGBQCdKFeEBqBDMCnUEDPeBCjPDtXBBBjRCdJCECpYDbTB",
   "yVCcWCbyXFbamZCfDBcNDKBbgSCbdoGBliLE"]

def unifiedIdeograph : CodeSet :=
  .ofText "tsAjtOcMbfbKbicSCBBBCKBBBBCCDdveCclfCbGgdUGiOCinQOlbLhqDhhZFgfG"

def variationSelector : CodeSet := .ofText "jcTDBBdjcAQbwnkYjG"

end Table

/-! ## Derived properties -/

def isLowercase (c : Char) : Bool :=
  category c == .lowercaseLetter || Table.otherLowercase.contains c.toNat

def isUppercase (c : Char) : Bool :=
  category c == .uppercaseLetter || Table.otherUppercase.contains c.toNat

def isAlphabetic (c : Char) : Bool :=
  isLetter c || category c == .letterNumber || Table.otherLowercase.contains c.toNat
    || Table.otherUppercase.contains c.toNat || Table.otherAlphabetic.contains c.toNat

def changesInLowercase (c : Char) : Bool :=
  isUppercase c != Table.lowercaseException.contains c.toNat

def changesInUppercase (c : Char) : Bool :=
  isLowercase c != Table.uppercaseException.contains c.toNat

def changesInTitlecase (c : Char) : Bool :=
  changesInUppercase c != Table.titlecaseException.contains c.toNat

def changesInFolding (c : Char) : Bool :=
  changesInLowercase c != Table.foldingException.contains c.toNat

def extendsGrapheme (c : Char) : Bool :=
  [Category.nonspacingMark, .enclosingMark].contains (category c)
    || Table.otherGraphemeExtend.contains c.toNat

/-- Can a name start with the character? The vertical tilde is a letter but no name starts with it. -/
def startsName (c : Char) : Bool :=
  (isLetter c || category c == .letterNumber || Table.otherIdStart.contains c.toNat)
    && c != '\u2e2f'

def continuesName (c : Char) : Bool :=
  startsName c
    || [Category.nonspacingMark, .spacingMark, .decimalNumber,
      .connectorPunctuation].contains (category c)
    || Table.otherIdContinue.contains c.toNat

/-- Characters that show nothing where they are not supported. -/
def isIgnorable (c : Char) : Bool :=
  let n := c.toNat
  Table.otherDefaultIgnorable.contains n
    || ((category c == .format || Table.variationSelector.contains n)
      && !(isBlank c || (0xfff9 ≤ n && n ≤ 0xfffb) || (0x13430 ≤ n && n ≤ 0x1343f)
        || Table.prependedConcatenationMark.contains n))

/-- Letters, marks, digits and connectors make words. -/
def isWordChar (c : Char) : Bool :=
  isAlphabetic c || isMark c || [Category.decimalNumber, .connectorPunctuation].contains (category c)
    || Table.joinControl.contains c.toNat

/-! ## Properties by name -/

inductive Property where
  | asciiHexDigit
  | alphabetic
  | bidiControl
  | bidiMirrored
  | caseIgnorable
  | cased
  | changesWhenCasefolded
  | changesWhenCasemapped
  | changesWhenLowercased
  | changesWhenTitlecased
  | changesWhenUppercased
  | dash
  | defaultIgnorableCodePoint
  | deprecated
  | diacritic
  | emoji
  | emojiComponent
  | emojiModifier
  | emojiModifierBase
  | emojiPresentation
  | extendedPictographic
  | extender
  | graphemeBase
  | graphemeExtend
  | graphemeLink
  | hexDigit
  | hyphen
  | idsBinaryOperator
  | idsTrinaryOperator
  | idContinue
  | idStart
  | ideographic
  | joinControl
  | logicalOrderException
  | lowercase
  | math
  | noncharacterCodePoint
  | otherAlphabetic
  | otherDefaultIgnorableCodePoint
  | otherGraphemeExtend
  | otherIdContinue
  | otherIdStart
  | otherLowercase
  | otherMath
  | otherUppercase
  | patternSyntax
  | patternWhiteSpace
  | prependedConcatenationMark
  | quotationMark
  | radical
  | regionalIndicator
  | sentenceTerminal
  | softDotted
  | terminalPunctuation
  | unifiedIdeograph
  | uppercase
  | variationSelector
  | whiteSpace
  | xidContinue
  | xidStart
deriving DecidableEq, Repr

namespace Property

def holds (p : Property) (c : Char) : Bool :=
  let n := c.toNat
  match p with
  | .asciiHexDigit => Table.asciiHexDigit.contains n
  | .alphabetic => isAlphabetic c
  | .bidiControl => Table.bidiControl.contains n
  | .bidiMirrored => Table.bidiMirrored.contains n
  | .caseIgnorable =>
    [Category.nonspacingMark, .enclosingMark, .format, .modifierLetter,
      .modifierSymbol].contains (category c) || Table.wordInner.contains n
  | .cased => isLowercase c || isUppercase c || category c == .titlecaseLetter
  | .changesWhenCasefolded => changesInFolding c
  | .changesWhenCasemapped =>
    changesInLowercase c || changesInUppercase c || changesInTitlecase c
  | .changesWhenLowercased => changesInLowercase c
  | .changesWhenTitlecased => changesInTitlecase c
  | .changesWhenUppercased => changesInUppercase c
  | .dash => category c == .dashPunctuation || Table.otherDash.contains n
  | .defaultIgnorableCodePoint => isIgnorable c
  | .deprecated => Table.deprecated.contains n
  | .diacritic => Table.diacritic.contains n
  | .emoji => Table.emoji.contains n
  | .emojiComponent => Table.emojiComponent.contains n
  | .emojiModifier => Table.emojiModifier.contains n
  | .emojiModifierBase => Table.emojiModifierBase.contains n
  | .emojiPresentation => Table.emojiPresentation.contains n
  | .extendedPictographic => Table.extendedPictographic.contains n
  | .extender => Table.extender.contains n
  | .graphemeBase =>
    !([Category.control, .format, .surrogate, .privateUse, .unassigned, .lineSeparator,
      .paragraphSeparator].contains (category c) || extendsGrapheme c)
  | .graphemeExtend => extendsGrapheme c
  | .graphemeLink => Table.graphemeLink.contains n
  | .hexDigit => Table.hexDigit.contains n
  | .hyphen => Table.hyphen.contains n
  | .idsBinaryOperator => Table.idsBinaryOperator.contains n
  | .idsTrinaryOperator => Table.idsTrinaryOperator.contains n
  | .idContinue => continuesName c
  | .idStart => startsName c
  | .ideographic => Table.ideographic.contains n
  | .joinControl => Table.joinControl.contains n
  | .logicalOrderException => Table.logicalOrderException.contains n
  | .lowercase => isLowercase c
  | .math => category c == .mathSymbol || Table.otherMath.contains n
  | .noncharacterCodePoint => Table.noncharacterCodePoint.contains n
  | .otherAlphabetic => Table.otherAlphabetic.contains n
  | .otherDefaultIgnorableCodePoint => Table.otherDefaultIgnorable.contains n
  | .otherGraphemeExtend => Table.otherGraphemeExtend.contains n
  | .otherIdContinue => Table.otherIdContinue.contains n
  | .otherIdStart => Table.otherIdStart.contains n
  | .otherLowercase => Table.otherLowercase.contains n
  | .otherMath => Table.otherMath.contains n
  | .otherUppercase => Table.otherUppercase.contains n
  | .patternSyntax => Table.patternSyntax.contains n
  | .patternWhiteSpace => Table.patternWhiteSpace.contains n
  | .prependedConcatenationMark => Table.prependedConcatenationMark.contains n
  | .quotationMark => Table.quotationMark.contains n
  | .radical => Table.radical.contains n
  | .regionalIndicator => Table.regionalIndicator.contains n
  | .sentenceTerminal => Table.sentenceTerminal.contains n
  | .softDotted => Table.softDotted.contains n
  | .terminalPunctuation => Table.terminalPunctuation.contains n
  | .unifiedIdeograph => Table.unifiedIdeograph.contains n
  | .uppercase => isUppercase c
  | .variationSelector => Table.variationSelector.contains n
  | .whiteSpace => isBlank c
  | .xidContinue => continuesName c && !Table.unclosedContinue.contains n
  | .xidStart => startsName c && !Table.unclosedStart.contains n

/-- The properties and their names, in lower case and without separators. -/
def names : List (Property × List String) :=
  [(.asciiHexDigit, ["asciihexdigit", "ahex"]), (.alphabetic, ["alphabetic", "alpha"]),
   (.bidiControl, ["bidicontrol", "bidic"]), (.bidiMirrored, ["bidimirrored", "bidim"]),
   (.caseIgnorable, ["caseignorable", "ci"]), (.cased, ["cased"]),
   (.changesWhenCasefolded, ["changeswhencasefolded", "cwcf"]),
   (.changesWhenCasemapped, ["changeswhencasemapped", "cwcm"]),
   (.changesWhenLowercased, ["changeswhenlowercased", "cwl"]),
   (.changesWhenTitlecased, ["changeswhentitlecased", "cwt"]),
   (.changesWhenUppercased, ["changeswhenuppercased", "cwu"]), (.dash, ["dash"]),
   (.defaultIgnorableCodePoint, ["defaultignorablecodepoint", "di"]),
   (.deprecated, ["deprecated", "dep"]), (.diacritic, ["diacritic", "dia"]),
   (.emoji, ["emoji"]), (.emojiComponent, ["emojicomponent", "ecomp"]),
   (.emojiModifier, ["emojimodifier", "emod"]),
   (.emojiModifierBase, ["emojimodifierbase", "ebase"]),
   (.emojiPresentation, ["emojipresentation", "epres"]),
   (.extendedPictographic, ["extendedpictographic", "extpict"]),
   (.extender, ["extender", "ext"]), (.graphemeBase, ["graphemebase", "grbase"]),
   (.graphemeExtend, ["graphemeextend", "grext"]), (.graphemeLink, ["graphemelink", "grlink"]),
   (.hexDigit, ["hexdigit", "hex"]), (.hyphen, ["hyphen"]),
   (.idsBinaryOperator, ["idsbinaryoperator", "idsb"]),
   (.idsTrinaryOperator, ["idstrinaryoperator", "idst"]), (.idContinue, ["idcontinue", "idc"]),
   (.idStart, ["idstart", "ids"]), (.ideographic, ["ideographic", "ideo"]),
   (.joinControl, ["joincontrol", "joinc"]),
   (.logicalOrderException, ["logicalorderexception", "loe"]),
   (.lowercase, ["lowercase", "lower"]), (.math, ["math"]),
   (.noncharacterCodePoint, ["noncharactercodepoint", "nchar"]),
   (.otherAlphabetic, ["otheralphabetic", "oalpha"]),
   (.otherDefaultIgnorableCodePoint, ["otherdefaultignorablecodepoint", "odi"]),
   (.otherGraphemeExtend, ["othergraphemeextend", "ogrext"]),
   (.otherIdContinue, ["otheridcontinue", "oidc"]), (.otherIdStart, ["otheridstart", "oids"]),
   (.otherLowercase, ["otherlowercase", "olower"]), (.otherMath, ["othermath", "omath"]),
   (.otherUppercase, ["otheruppercase", "oupper"]),
   (.patternSyntax, ["patternsyntax", "patsyn"]),
   (.patternWhiteSpace, ["patternwhitespace", "patws"]),
   (.prependedConcatenationMark, ["prependedconcatenationmark", "pcm"]),
   (.quotationMark, ["quotationmark", "qmark"]), (.radical, ["radical"]),
   (.regionalIndicator, ["regionalindicator", "ri"]),
   (.sentenceTerminal, ["sentenceterminal", "sterm"]), (.softDotted, ["softdotted", "sd"]),
   (.terminalPunctuation, ["terminalpunctuation", "term"]),
   (.unifiedIdeograph, ["unifiedideograph", "uideo"]), (.uppercase, ["uppercase", "upper"]),
   (.variationSelector, ["variationselector", "vs"]),
   (.whiteSpace, ["whitespace", "wspace", "space"]), (.xidContinue, ["xidcontinue", "xidc"]),
   (.xidStart, ["xidstart", "xids"])]

/-- The property of a name. -/
def ofName? (name : String) : Option Property :=
  (names.find? (·.2.contains name)).map (·.1)

end Property

end Text

end ObjectGraph
