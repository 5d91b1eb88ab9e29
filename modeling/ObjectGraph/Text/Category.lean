-- SUMMARY: The general category of a character.
import ObjectGraph.Text.Boundary

/-! # General categories

Every code point has one of thirty general categories.
-/

namespace ObjectGraph

namespace Text

inductive Category where
  | uppercaseLetter
  | lowercaseLetter
  | titlecaseLetter
  | modifierLetter
  | otherLetter
  | nonspacingMark
  | spacingMark
  | enclosingMark
  | decimalNumber
  | letterNumber
  | otherNumber
  | connectorPunctuation
  | dashPunctuation
  | openPunctuation
  | closePunctuation
  | initialPunctuation
  | finalPunctuation
  | otherPunctuation
  | mathSymbol
  | currencySymbol
  | modifierSymbol
  | otherSymbol
  | spaceSeparator
  | lineSeparator
  | paragraphSeparator
  | control
  | format
  | surrogate
  | privateUse
  | unassigned
deriving DecidableEq, Repr

namespace Category

/-- The categories in the order of their numbers in the table. -/
def all : Array Category :=
  #[.uppercaseLetter, .lowercaseLetter, .titlecaseLetter, .modifierLetter, .otherLetter,
    .nonspacingMark, .spacingMark, .enclosingMark, .decimalNumber, .letterNumber,
    .otherNumber, .connectorPunctuation, .dashPunctuation, .openPunctuation,
    .closePunctuation, .initialPunctuation, .finalPunctuation, .otherPunctuation,
    .mathSymbol, .currencySymbol, .modifierSymbol, .otherSymbol, .spaceSeparator,
    .lineSeparator, .paragraphSeparator, .control, .format, .surrogate, .privateUse,
    .unassigned]

def table : Partition := .ofText <| String.join
  ["AZbGWBRDTBRDNBOBRBSBRBMBRCIKRCSDRCAbANBRBOBUBLBUBBbANBSBOBSBZbHWBRBTEVBRBUBVBEBPBSBbABVBUBVB",
   "SBKCUBBBRCUBKBEBQBKDRBAXSBAHBYSBBIABBBABBBABBBABBBABBBABBBABBBABBBABBBABBBABBBABBBABBBABBBAB",
   "BBABBBABBBABBBABBBABBBABBBABBBABBBABBBABBBABBBABBBABBCABBBABBBABBBABBBABBBABBBABBBABBCABBBAB",
   "BBABBBABBBABBBABBBABBBABBBABBBABBBABBBABBBABBBABBBABBBABBBABBBABBBABBBABBBABBBABBBABBBACBBAB",
   "BBABBDACBBABBBACBBADBCAEBBACBBADBDACBBACBBABBBABBBACBBABBCABBBACBBADBBABBBACBCEBABBDEEABCBBB",
   "ABCBBBABCBBBABBBABBBABBBABBBABBBABBBABBBABBCABBBABBBABBBABBBABBBABBBABBBABBBABBCABCBBBABBBAD",
   "BBABBBABBBABBBABBBABBBABBBABBBABBBABBBABBBABBBABBBABBBABBBABBBABBBABBBABBBABBBABBBABBBABBBAB",
   "BBABBBABBBABBBABBBABBBABBHACBBACBCABBBAEBBABBBABBBABBBABBcREBBbBDSUEDMUODFUHDBUBDBURFeIABBBA",
   "BBBDBUBABBBbDCDBBDRBABbDEUCABRBADbDBABbDBACBBARbDBAJBbJABBCADBDABBBABBBABBBABBBABBBABBBABBBA",
   "BBBABBBABBBABBBABBFABBBSBABBBACBCAbZBbWABBBABBBABBBABBBABBBABBBABBBABBBABBBABBBABBBABBBABBBA",
   "BBBABBBABBBABBBVBFFHCABBBABBBABBBABBBABBBABBBABBBABBBABBBABBBABBBABBBABBBABBBABBBABBBABBBABB",
   "BABBBABBBABBBABBBABBBABBBABBBABBBABBBACBBABBBABBBABBBABBBABBBABBCABBBABBBABBBABBBABBBABBBABB",
   "BABBBABBBABBBABBBABBBABBBABBBABBBABBBABBBABBBABBBABBBABBBABBBABBBABBBABBBABBBABBBABBBABBBABB",
   "BABBBABBBABBBABBBABBBABBBABBBABBBABBBABBBABBBABBBABBBABBBABBBABBBABBBABBBbDBAbMbDCDBRGBbPRBM",
   "BbDCVCTBbDBFbTMBFBRBFCRBFCRBFBbDIEbBbDEEERCbDLbAGSDRCTBRCVCFLRBbABRDEbGDBEKFVIKREECFBEdVRBEB",
   "FHbABVBFGDCFCVBFEECIKEDVCEBRObDBbABEBFBEbEFbBbDCEdLFLEBbDOIKEbHFJDCVBRDDBbDCFBTCEWFEDBFJDBFD",
   "DBFFbDCRPbDBEZFDbDCRBbDBELbDFEYUBEGbDBbACbDGFIEbPDBFYbABFbGGBEcCFBGBFBEBGDFIGEFBGCEBFHEKFCRC",
   "IKRBDBEPFBGCbDBEIbDCECbDCEWbDBEHbDBEBbDDEEbDCFBEBGDFEbDCGCbDCGCFBEBbDIGBbDEECbDBEDFCbDCIKECT",
   "CKGVBTBEBRBFBbDCFCGBbDBEGbDEECbDCEWbDBEHbDBECbDBECbDBECbDCFBbDBGDFCbDEFCbDCFDbDDFBbDHEEbDBEB",
   "bDHIKFCEDFBRBbDKFCGBbDBEJbDBEDbDBEWbDBEHbDBECbDBEFbDCFBEBGDFFbDBFCGBbDBGCFBbDCEBbDPECFCbDCIK",
   "RBTBbDHEBFGbDBFBGCbDBEIbDCECbDCEWbDBEHbDBECbDBEFbDCFBEBGBFBGBFEbDCGCbDCGCFBbDHFCGBbDEECbDBED",
   "FCbDCIKVBEBKGbDKFBEBbDBEGbDDEDbDBEEbDDECbDBEBbDBECbDDECbDDEDbDDEMbDEGCFBGCbDDGDbDBGDFBbDCEB",
   "bDGGBbDOIKKDVGTBVBbDFFBGDFBEIbDBEDbDBEXbDBEQbDCFBEBFDGEbDBFDbDBFEbDHFCbDBEDbDCEBbDCECFCbDCIK",
   "bDHRBKHVBEBFBGCRBEIbDBEDbDBEXbDBEKbDBEFbDCFBEBGBFBGFbDBFBGCbDBGCFCbDHGCbDGECbDBECFCbDCIKbDBE",
   "CGBbDMFCGCEJbDBEDbDBEbPFCEBGDFEbDBGDbDBGDFBEBVBbDEEDGBKHEDFCbDCIKKJVBEGbDBFBGCbDBESbDDEYbDBE",
   "JbDBEBbDCEHbDDFBbDEGDFDbDBFBbDBGIbDGIKbDCGCRBbDMEbWFBECFHbDETBEGDBFIRBIKRCbDbLECbDBEBbDBEFbD",
   "BEYbDBEBbDBEKFBECFJEBbDCEFbDBDBbDBFHbDBIKbDCEEbDbGEBVDRPVBRBVDFCVGIKKKVBFBVBFBVBFBNBOBNBOBGC",
   "EIbDBEbKbDEFOGBFFRBFCEFFLbDBFbKbDBVIFBVGbDBVCRFVERCbDbLEbRGCFEGBFGGBFCGCFCEBIKRGEGGCFCEEFDEB",
   "GDECGHEDFEENFBGCFCGGFBEBGBIKGDFBVCAbMbDBABbDFABbDCBbRRBDBBDEmRbDBEEbDCEHbDBEBbDBEEbDCEbPbDBE",
   "EbDCEbHbDBEEbDCEHbDBEBbDBEEbDCEPbDBEcFbDBEEbDCEcPbDCFDRJKUbDDEQVKbDGAdIbDCBGbDCMBExWVBRBERWB",
   "EbANBOBbDDEcXRDJDEIbDHESFDGBbDJETFCGBRCbDJESFCbDMENbDBEDbDBFCbDMEcAFCGBFHGIFBGCFLRDDBRDTBEBF",
   "BbDCIKbDGKKbDGRGMBREFDbABFBIKbDGEbJDBEcBbDHEFFCEbIFBEBbDFEcSbDKEbFbDBFDGEFCGDbDEGCFBGGFDbDEV",
   "BbDDRCIKEbEbDCEFbDLEbSbDEEbAbDGIKKBbDDVbIEXFCGCFBbDCRCEcBGBFBGBFHbDBFBGBFBGCFIGGFKbDCFBIKbDG",
   "IKbDGRHDBRGbDCFOHBFQbDbXFEGBEbVFBGBFFGBFBGFFBGCEIbDDIKRHVKFJVJRCbDBFCGBEbEGBFEGCFCGBFDECIKE",
   "bSFBGBFCGDFBGBFDGCbDIREEbKGIFIGCFCbDDRFIKbDDEDIKEbEDGRCBJbDHAbRbDCADRIbDIFDRBFNGBFHEEFBEGFBE",
   "CGBFCEBbDFBbSDcLBNDBBbIDbLFcMABBBABBBABBBABBBABBBABBBABBBABBBABBBABBBABBBABBBABBBABBBABBBABB",
   "BABBBABBBABBBABBBABBBABBBABBBABBBABBBABBBABBBABBBABBBABBBABBBABBBABBBABBBABBBABBBABBBABBBABB",
   "BABBBABBBABBBABBBABBBABBBABBBABBBABBBABBBABBBABBBABBBABBBABBBABBBABBBABBBABBBABBBABBBABBBABB",
   "BABBBABBBABBBABBBABBBABBBABBBABBBABBBABBBABBBABBBABBJABBBABBBABBBABBBABBBABBBABBBABBBABBBABB",
   "BABBBABBBABBBABBBABBBABBBABBBABBBABBBABBBABBBABBBABBBABBBABBBABBBABBBABBBABBBABBBABBBABBBABB",
   "BABBBABBBABBBABBBABBBABBBABBBABBBABBBABBBABBBABBBABBBABBBABBBABBJAIBGbDCAGbDCBIAIBIAIBGbDCAG",
   "bDCBIbDBABbDBABbDBABbDBABBIAIBObDCBICIBICIBICIBFbDBBCAECBUBBBUDBDbDBBCAECBUDBEbDCBCAEbDBUDBI",
   "AFUDbDCBDbDBBCAECBUCbDBWLbAFMGRCPBQBNBPCQBNBPBRIXBYBbAFWBRJPBQBRELCRDSBNBOBRLSBRBLBRKWBbAFbD",
   "BbAKKBDBbDCKGSDNBOBDBKKSDNBOBbDBDNbDDTbHbDPFNHEFBHDFMbDPVCABVEABVCBBADBCADBBVBABVCSBAFVGABVB",
   "ABVBABVBAEVBBBAEBBEEBBVCBCACSFABBEVBSBVCBBVBKQJbJABBBJEKBVCbDESFVFSCVESBVCSBVCSBVHSBVbFSCVCS",
   "BVBSBVbFSkIVINBOBNBOBVUSCVHNBOBVdDSBVbESZVbOSGVcRbDZVLbDVKcIVdAKWVhBSBVJSBVcCSIVeHSBVjONBOBN",
   "BOBNBOBNBOBNBOBNBOBNBOBKbEVbSSFNBOBSbFNBOBNBOBNBOBNBOBNBOBSQVjWSfBNBOBNBOBNBOBNBOBNBOBNBOBNB",
   "OBNBOBNBOBNBOBNBOBScLNBOBNBOBSbGNBOBSjYVbWSVVCSGVbNbDCVbGbDBVeBAbWBbWABBBADBCABBBABBBABBBAEB",
   "BABBCABBGDCADBBABBBABBBABBBABBBABBBABBBABBBABBBABBBABBBABBBABBBABBBABBBABBBABBBABBBABBBABBBA",
   "BBBABBBABBBABBBABBBABBBABBBABBBABBBABBBABBBABBBABBBABBBABBBABBBABBBABBBABBBABBBABBBABBBABBBA",
   "BBBABBBABBBABBBABBBABBBABBCVGABBBABBBFDABBBbDFREKBRCBbMbDBBBbDFBBbDCEcEbDHDBRBbDOFBEXbDJEHbD",
   "BEHbDBEHbDBEHbDBEHbDBEHbDBEHbDBEHbDBFbGRCPBQBPBQBRDPBQBRBPBQBRJMBRCMBRBPBQBRCPBQBNBOBNBOBNBO",
   "BNBOBRFDBRKMCREMBRBNBRNVCRDNBOBNBOBNBOBNBOBMBbDbIVbAbDBVdLbDMViGbDbAVMbDEWBRDVBDBEBJBNBOBNBO",
   "BNBOBNBOBNBOBVCNBOBNBOBNBOBNBOBMBNBOCVBJJFEGCMBDFVCJDDBEBRBVCbDBEdIbDCFCUCDCEBMBEdMRBDDEBbDF",
   "EbRbDBEdQbDBVCKEVKEbGVbKbDMEQVbFbDBKKVbEKIVBKPVbGKKVbNKPVmIEjtOVcMEbfcFDBEbrZbDDVcDbDJEbODGR",
   "CEkIDBRDEQIKECbDUABBBABBBABBBABBBABBBABBBABBBABBBABBBABBBABBBABBBABBBABBBABBBABBBABBBABBBABB",
   "BABBBABBBABBBABBBEBFBHDRBFKRBDBABBBABBBABBBABBBABBBABBBABBBABBBABBBABBBABBBABBBABBBABBBDCFCE",
   "cSJKFCRGbDIUXDJUCABBBABBBABBBABBBABBBABBBABBDABBBABBBABBBABBBABBBABBBABBBABBBABBBABBBABBBABB",
   "BABBBABBBABBBABBBABBBABBBABBBABBBABBBABBBABBBABBBABBBABBBABBBABBBABBBABBBABBBDBBIABBBABBBACB",
   "BABBBABBBABBBABBBDBUCABBBABBBEBABBBABBDABBBABBBABBBABBBABBBABBBABBBABBBABBBABBBAFBBAFBBABBBA",
   "BBBABBBABBBABBBABBBABBBAEBBABBBbDFABBBbDBBBbDBBBABBBABBBbDYDDABBBEBDCBBEHFBEDFBEEFBEXGCFCGBV",
   "EFBbDDKGVCTBVBbDGEcAREbDIGCEbYGQFCbDIRCIKbDGFSEGRDEBRBECFBIKEbCFIRCEXFLGCbDLRBEbDbDDFDGBEbVF",
   "BGCFEGCFCGDRNbDBDBIKbDERCEFFBDBEJIKEFbDBEbPFGGCFCGCFCbDJEDFBEIFBGBbDCIKbDCREEQDBEGVDEBGBFBGB",
   "EbYFBEBFDECFCEFFCEBFBEBbDYECDBRCELGBFCGCRCEBDCGBFBbDKEGbDCEGbDCEGbDJEHbDBEHbDBBbRUBDEBJDBUC",
   "bDEBdCEbJGCFBGCFBGCRBGBFBbDCIKbDGEqnSbDMEXbDEEbXbDEbBdaUbCjmEEoCbDCEeCbDbMBHbDMBFbDFEBFBEKSB",
   "ENbDBEFbDBEBbDBECbDBECbDBEeEURbDQEnZOBNBVQEcMbDCEcCbDHVBbDbGEMTBVDFQRHNBOBRBbDGFQRBMCLCNBOBN",
   "BOBNBOBNBOBNBOBNBOBNBOBNBOBRCNBOBRELDRDbDBREMBNBOBNBOBNBOBRDSBMBSDbDBRBTBRCbDEEFbDBEfFbDCbAB",
   "bDBRDTBRDNBOBRBSBRBMBRCIKRCSDRCAbANBRBOBUBLBUBBbANBSBOBSBNBOBRBNBOBRCEKDBEbTDCEbFbDDEGbDCEG",
   "bDCEGbDCEDbDDTCSBUBVBTCbDBVBSEVCbDKbADVCbDCEMbDBEbAbDBETbDBECbDBEPbDCEObDbIEeTbDFRDbDEKbTbDD",
   "VJJcBKEVRKCVDbDBVNbDDVBbDbVVbTFBbDfAEbDbDDEbXbDPFBKbBbDEEbGKEbDJEUJBEIJBbDFEbMFFbDFEbEbDBRBE",
   "bKbDEEIRBJFbDbQAbOBbOEdAbDCIKbDGAbKbDEBbKbDEEbObDIEcAbDLRBALbDBAPbDBAHbDBACbDBBLbDBBPbDBBHbD",
   "BBCbDcPElZbDJEWbDKEIbDYDGbDBDbQbDBDJbDcREGbDCEBbDBEbSbDBECbDDEBbDCEXbDBRBKIEXVCKHEbFbDIKJbD",
   "bWETbDBECbDFKFEWKGbDDRBEbAbDFRBbDcMEcEbDEKCECKQbDCKbUEBFDbDBFCbDFFEEEbDBEDbDBEbDbDCFDbDEFBKJ",
   "bDHRJbDHEbDKCRBEbDKDbDbGEIVBEbCFCbDEKFRHbDJEcCbDDRHEWbDCKIETbDFKIESbDHREbDMKHbDdCEcVbDcDAbZ",
   "bDNBbZbDHKGEbKFEbDIIKbDlIKbFbDBEbQbDBFCMBbDCECbDcXFDEbDKKEBbDIEWFLKERFbDWESFEREbDbMEVKHbDUEX",
   "bDJGBFBGBEcBFPRHbDEKUIKFBECFCEBbDJFDGBEbTGDFEGCFCRCbABREFBbDKbABbDCEZbDHIKbDGFDEbKFFGBFIbDBI",
   "KREEBGCEBbDIEbJFBRCEBbDJFCGBEbWGDFJGCEEREFERBGBFBIKEBRBEBRDbDBKUbDLESbDBEZGDFDGCFBGBFCRGFBEC",
   "FBbDcKEHbDBEBbDBEEbDBEPbDBEKRBbDGEbVFBGDFIbDFIKbDGFCGCbDBEIbDCECbDCEWbDBEHbDBECbDBEFbDBFCEBG",
   "CFBGEbDCGCbDCGDbDCEBbDGGBbDFEFGCbDCFHbDDFFbDfJEcBGDFIGCFDGBFBEERFIKRCbDBRBFBEDbDbEEbWGDFGGBF",
   "BGEFCGBFCECRBEBbDIIKbDgKEbVGDFEbDCGEFCGBFCRXEEFCbDbIEbWGDFIGCFBGBFCRDEBbDLIKbDGRNbDTEbRFBGBF",
   "BGCFGGBFBEBRBbDGIKbDcCEbBbDCFDGCFEGBFFbDEIKKCRDVBEHbDhDEbSGDFJGBFCRBbDdWAbGBbGIKKJbDMEIbDCEB",
   "bDCEIbDBECbDBEYGGbDBGCbDCFCGBFBEBGBEBGBFBRDbDJIKbDcSEIbDCEbNGDFEbDCFCGEFBEBRBEBGBbDbBEBFKEbO",
   "FGGBEBFERIFBbDIEBFGGCFDEbUFNGBFCRDEBRFbDNEcVbDHRKbDjMEJbDBEbLGBFHbDBFGGBFBEBRFbDKIKKTbDDRCE",
   "bEbDCFWbDBGBFHGBFCGBFCbDcVEHbDBECbDBEbMFGbDDFBbDBFCbDBFHEBFBbDIIKbDGEGbDBECbDBEbGGFbDBFCbDBG",
   "CFBGBFBEBbDHIKbDlYETFCGCRCbDHFCEBGBENbDBEbIGCFFbDDGCFBGBFBRNIKbDdIEBbDPKVVITEVRbDNRBEbjMbDdY",
   "JeHbDBRFbDLEhObDdxKEdTRCbDNEbpGbAQFBEGFPbDfyGEwLbDmuBEvXbDHEbFbDBIKbDERCEdBbDBIKbDGEbEbDCFFR",
   "BbDKEbWFHRFVEDERBVBbDKIKbDBKHbDBEVbDFETbDbaMAbGBbGKXREbDdXEcXbDEFBEBGcDbDHFEDNbDcMDCRBDBFBbD",
   "LGCbDOEjcAbDIEbvQbDbQEJbDnfRDEbDBDHbDBDCbDBElFbDPEBbDbDEDbDCEBbDOEEbDIEpGbDdkUEeDbDFENbDDEJ",
   "bDHEKbDCVBFCRBbAEbDgyUFbUbDCFXbDJVeMbDcIVjMbDKVbNbDCVcIGCFDVDGGbAIFIVCFHVbEFEVcJbDVVcOFDVBbD",
   "eSKUbDMKUbDMVdJbDJKZbDfFAbABbAAbABHbDBBSAbABbAABbDBACbDCABbDCACbDCAEbDBAIBEbDBBBbDBBHbDBBLA",
   "bABbAACbDBAEbDCAIbDBAHbDBBbAACbDBAEbDBAFbDBABbDDAHbDBBbAAbABbAAbABbAAbABbAAbABbAAbABbAAbABbC",
   "bDCAZSBBZSBBGAZSBBZSBBGAZSBBZSBBGAZSBBZSBBGAZSBBZSBBGABBBbDCIbYVtSFcDVEFbYVIFBVOFBVCRFbDPFF",
   "bDBFPbDbqMBKEBBUbDGBGbDiFFHbDBFRbDCFHbDBFCbDBFFbDFDcKbDbHFBbDeIEbTbDDFHDHbDCIKbDEEBVBbDmIEbE",
   "FBbDREbSFEIKbDFTBbDrWEbBDBFEIKbDbcOEHbDBEEbDBECbDBEPbDBEhPbDCKJFHbDbPAbIBbIFHDBbDEIKbDERCbD",
   "beFKcHVBKDTBKEbDcYKbTVBKPbDhMEEbDBEbBbDBECbDBEBbDCEBbDBEKbDBEEbDBEBbDBEBbDGEBbDEEBbDBEBbDBEB",
   "bDBEDbDBECbDBEBbDCEBbDBEBbDBEBbDBEBbDBEBbDBECbDBEBbDCEEbDBEHbDBEEbDBEEbDBEBbDBEKbDBERbDFEDbD",
   "BEFbDBERbDcASCbDkKVbSbDEVdWbDMVPbDCVPbDBVPbDBVbLbDKKNVgFbDcEVbDbDNVbSbDEVJbDHVCbDOVGbDfYVjRU",
   "FVbcAbDEVRbDDVNbDDVePbDEVdRbDGVMbDEVBbDPVMbDEVcEbDIVKbDGVbObDIVbEbDCVCbDdAVnCbDMVObDCVNbDDVJ",
   "bDHVbUbDBVHbDIVObDEVJbDHVJbDHVfRbDBVcDbDbLIKbDbnQEclfCbDbGEgdUbDGEiObDCEinQbDOElbLbDepJEuWbD",
   "cfYEhhZbDFEgfGbDbomxLbABbDbEbAdSbDeYFjGbDdsfObCdsyObDCbCdsyObD"]

end Category

/-- The general category of a character. -/
def category (c : Char) : Category :=
  Category.all[Category.table.valueAt c.toNat]?.getD .unassigned

/-! ## Groups -/

def isLetter (c : Char) : Bool :=
  [Category.uppercaseLetter, .lowercaseLetter, .titlecaseLetter, .modifierLetter,
    .otherLetter].contains (category c)

def isMark (c : Char) : Bool :=
  [Category.nonspacingMark, .spacingMark, .enclosingMark].contains (category c)

def isNumber (c : Char) : Bool :=
  [Category.decimalNumber, .letterNumber, .otherNumber].contains (category c)

end Text

end ObjectGraph
