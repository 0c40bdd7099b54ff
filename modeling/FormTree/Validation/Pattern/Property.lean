/-!
Unicode properties that a regular expression can name. Names are compared
without regard to case, spaces, dashes, underscores and a leading `is`.
-/

namespace FormTree.Pattern.Property

/-- The general categories under their short and long names, and the classes that
are named like them. -/
def categoryNames : List String :=
  ["c", "other", "cc", "control", "cntrl", "cf", "format", "cn", "unassigned", "co", "privateuse",
    "cs", "surrogate", "l", "letter", "lc", "casedletter", "ll", "lowercaseletter", "lm",
    "modifierletter", "lo", "otherletter", "lt", "titlecaseletter", "lu", "uppercaseletter", "m",
    "mark", "combiningmark", "mc", "spacingmark", "me", "enclosingmark", "mn", "nonspacingmark",
    "n", "number", "nd", "decimalnumber", "digit", "nl", "letternumber", "no", "othernumber", "p",
    "punctuation", "punct", "pc", "connectorpunctuation", "pd", "dashpunctuation", "pe",
    "closepunctuation", "pf", "finalpunctuation", "pi", "initialpunctuation", "po",
    "otherpunctuation", "ps", "openpunctuation", "s", "symbol", "sc", "currencysymbol", "sk",
    "modifiersymbol", "sm", "mathsymbol", "so", "othersymbol", "z", "separator", "zl",
    "lineseparator", "zp", "paragraphseparator", "zs", "spaceseparator", "any", "assigned",
    "ascii"]

/-- The scripts, under the names of four letters and the long ones. -/
def scriptNames : List String :=
  ["adlm", "adlam", "aghb", "caucasianalbanian", "ahom", "arab", "arabic", "armi",
    "imperialaramaic", "armn", "armenian", "avst", "avestan", "bali", "balinese", "bamu", "bamum",
    "bass", "bassavah", "batk", "batak", "beng", "bengali", "bhks", "bhaiksuki", "bopo",
    "bopomofo", "brah", "brahmi", "brai", "braille", "bugi", "buginese", "buhd", "buhid", "cakm",
    "chakma", "cans", "canadianaboriginal", "cari", "carian", "cham", "cher", "cherokee", "chrs",
    "chorasmian", "copt", "coptic", "qaac", "cpmn", "cyprominoan", "cprt", "cypriot", "cyrl",
    "cyrillic", "deva", "devanagari", "diak", "divesakuru", "dogr", "dogra", "dsrt", "deseret",
    "dupl", "duployan", "egyp", "egyptianhieroglyphs", "elba", "elbasan", "elym", "elymaic",
    "ethi", "ethiopic", "geor", "georgian", "glag", "glagolitic", "gong", "gunjalagondi", "gonm",
    "masaramgondi", "goth", "gothic", "gran", "grantha", "grek", "greek", "gujr", "gujarati",
    "guru", "gurmukhi", "hang", "hangul", "hani", "han", "hano", "hanunoo", "hatr", "hatran",
    "hebr", "hebrew", "hira", "hiragana", "hluw", "anatolianhieroglyphs", "hmng", "pahawhhmong",
    "hmnp", "nyiakengpuachuehmong", "hung", "oldhungarian", "ital", "olditalic", "java",
    "javanese", "kali", "kayahli", "kana", "katakana", "kawi", "khar", "kharoshthi", "khmr",
    "khmer", "khoj", "khojki", "kits", "khitansmallscript", "knda", "kannada", "kthi", "kaithi",
    "lana", "taitham", "laoo", "lao", "latn", "latin", "lepc", "lepcha", "limb", "limbu", "lina",
    "lineara", "linb", "linearb", "lisu", "lyci", "lycian", "lydi", "lydian", "mahj", "mahajani",
    "maka", "makasar", "mand", "mandaic", "mani", "manichaean", "marc", "marchen", "medf",
    "medefaidrin", "mend", "mendekikakui", "merc", "meroiticcursive", "mero",
    "meroitichieroglyphs", "mlym", "malayalam", "modi", "mong", "mongolian", "mroo", "mro", "mtei",
    "meeteimayek", "mult", "multani", "mymr", "myanmar", "nagm", "nagmundari", "nand",
    "nandinagari", "narb", "oldnortharabian", "nbat", "nabataean", "newa", "nkoo", "nko", "nshu",
    "nushu", "ogam", "ogham", "olck", "olchiki", "orkh", "oldturkic", "orya", "oriya", "osge",
    "osage", "osma", "osmanya", "ougr", "olduyghur", "palm", "palmyrene", "pauc", "paucinhau",
    "perm", "oldpermic", "phag", "phagspa", "phli", "inscriptionalpahlavi", "phlp",
    "psalterpahlavi", "phnx", "phoenician", "plrd", "miao", "prti", "inscriptionalparthian",
    "rjng", "rejang", "rohg", "hanifirohingya", "runr", "runic", "samr", "samaritan", "sarb",
    "oldsoutharabian", "saur", "saurashtra", "sgnw", "signwriting", "shaw", "shavian", "shrd",
    "sharada", "sidd", "siddham", "sind", "khudawadi", "sinh", "sinhala", "sogd", "sogdian",
    "sogo", "oldsogdian", "sora", "sorasompeng", "soyo", "soyombo", "sund", "sundanese", "sylo",
    "sylotinagri", "syrc", "syriac", "tagb", "tagbanwa", "takr", "takri", "tale", "taile", "talu",
    "newtailue", "taml", "tamil", "tang", "tangut", "tavt", "taiviet", "telu", "telugu", "tfng",
    "tifinagh", "tglg", "tagalog", "thaa", "thaana", "thai", "tibt", "tibetan", "tirh", "tirhuta",
    "tnsa", "tangsa", "toto", "ugar", "ugaritic", "vaii", "vai", "vith", "vithkuqi", "wara",
    "warangciti", "wcho", "wancho", "xpeo", "oldpersian", "xsux", "cuneiform", "yezi", "yezidi",
    "yiii", "yi", "zanb", "zanabazarsquare", "zinh", "inherited", "qaai", "zyyy", "common", "gara",
    "garay", "gukh", "gurungkhema", "krai", "kiratrai", "onao", "olonal", "sunu", "sunuwar",
    "todr", "todhri", "tutg", "tulutigalari"]

def flagNames : List String :=
  ["ahex", "asciihexdigit", "alpha", "alphabetic", "bidic", "bidicontrol", "bidim", "bidimirrored",
    "ci", "caseignorable", "cased", "cwcf", "changeswhencasefolded", "cwcm",
    "changeswhencasemapped", "cwl", "changeswhenlowercased", "cwt", "changeswhentitlecased", "cwu",
    "changeswhenuppercased", "dash", "di", "defaultignorablecodepoint", "dep", "deprecated", "dia",
    "diacritic", "emoji", "ecomp", "emojicomponent", "emod", "emojimodifier", "ebase",
    "emojimodifierbase", "epres", "emojipresentation", "extpict", "extendedpictographic", "ext",
    "extender", "grbase", "graphemebase", "grext", "graphemeextend", "graphemelink", "hex",
    "hexdigit", "hyphen", "idsb", "idsbinaryoperator", "idst", "idstrinaryoperator", "idc",
    "idcontinue", "ids", "idstart", "ideo", "ideographic", "joinc", "joincontrol", "loe",
    "logicalorderexception", "lower", "lowercase", "math", "nchar", "noncharactercodepoint",
    "otheralphabetic", "otherdefaultignorablecodepoint", "othergraphemeextend", "otheridcontinue",
    "otheridstart", "otherlowercase", "othermath", "otheruppercase", "patsyn", "patternsyntax",
    "patws", "patternwhitespace", "pcm", "prependedconcatenationmark", "qmark", "quotationmark",
    "radical", "ri", "regionalindicator", "sterm", "sentenceterminal", "sd", "softdotted", "term",
    "terminalpunctuation", "uideo", "unifiedideograph", "upper", "uppercase", "vs",
    "variationselector", "wspace", "whitespace", "space", "xidc", "xidcontinue", "xids",
    "xidstart", "oalpha", "odi", "ogrext", "oidc", "oids", "olower", "omath", "oupper", "grlink",
    "idsu", "idsunaryoperator", "idcompatmathcontinue", "idcompatmathstart", "mcm",
    "modifiercombiningmark"]

/-- The names of properties that have values among the categories and the
scripts. -/
def categoryProperties : List String := ["gc", "generalcategory"]

def scriptProperties : List String := ["sc", "script", "scx", "scriptextensions"]

def normalized (name : List Char) : List Char :=
  let (lead, body) :=
    match name with
    | a :: b :: rest =>
      if (a = 'i' ∨ a = 'I') ∧ (b = 's' ∨ b = 'S') then (true, rest) else (false, name)
    | _ => (false, name)
  let kept := (body.filter fun c => c.toNat < 128 && c ∉ [' ', '_', '-']).map Char.toLower
  if lead ∧ kept = ['c'] then ['i', 's', 'c'] else kept

def isClassName (name : List Char) : Bool :=
  let n := String.ofList (normalized name)
  n ∈ flagNames || n ∈ categoryNames || n ∈ scriptNames

def hasValue (property value : List Char) : Bool :=
  let p := String.ofList (normalized property)
  let v := String.ofList (normalized value)
  (p ∈ categoryProperties && v ∈ categoryNames) || (p ∈ scriptProperties && v ∈ scriptNames)

/-- A text cut at the first place where a mark stands. -/
def cutAt? (mark : List Char) : List Char → List Char → Option (List Char × List Char)
  | _, [] => none
  | reversed, c :: rest =>
    if mark.isPrefixOf (c :: rest) then some (reversed.reverse, (c :: rest).drop mark.length)
    else cutAt? mark (c :: reversed) rest

/-- Whether the text between braces names a class of characters: a property
and its value, or one name. -/
def isKnown (text : List Char) : Bool :=
  match cutAt? ['!', '='] [] text <|> cutAt? [':'] [] text <|> cutAt? ['='] [] text with
  | some (property, value) => hasValue property value
  | none => isClassName text

end FormTree.Pattern.Property
