/-
The fixed words of the formula language: operator and punctuation symbols, the precedence levels of the binary operators,
reserved words, and the names of its functions. Each table is in declaration order, which breaks ties when text is split
into tokens.
-/
namespace Formula

/-- operators and punctuation -/
def symbols : List String :=
  ["(", ")", "+", "-", "NOT", "*", "/", "%", "||", "<", "<=", ">", ">=", "=", "<>", "!=", "^=", "AND", "OR", ","]

/-- the binary operators by precedence, the tightest level first; every level associates to the left -/
def precedence : List (List String) :=
  [["*", "/", "%"], ["+", "-"], ["||"], ["<", "<=", ">", ">="], ["=", "<>", "!=", "^="], ["AND"], ["OR"]]

/-- reserved words -/
def reservedWords : List String :=
  [":EXT", ":INFA", ":LKP", ":MCR", ":SD", ":SEQ", ":SP", ":TD", "AND", "DD_DELETE", "DD_INSERT", "DD_REJECT",
    "DD_UPDATE", "FALSE", "NOT", "NULL", "OR", "PROC_RESULT", "SESSTARTTIME", "SPOUTPUT", "SYSDATE", "TRUE",
    "WORKFLOWSTARTTIME", "ABORTED", "DISABLED", "FAILED", "NOTSTARTED", "STARTED", "STOPPED", "SUCCEEDED"]

/-- every function name of the language, whether or not an implementation exists -/
def functionNames : List String :=
  ["ABORT", "ABS", "ADD_TO_DATE", "AES_DECRYPT", "AES_ENCRYPT", "ASCII", "AVG", "BINARY_COMPARE", "BINARY_CONCAT",
    "BINARY_LENGTH", "BINARY_SECTION", "CEIL", "CHOOSE", "CHR", "CHRCODE", "COMPRESS", "CONCAT", "CONVERT_BASE", "COS",
    "COSH", "COUNT", "CRC32", "CUME", "DATE_COMPARE", "DATE_DIFF", "DEC_BASE64", "DEC_HEX", "DECODE", "DECOMPRESS",
    "EBCDIC_ISO88591", "ENC_BASE64", "ENC_HEX", "ERROR", "EXP", "FIRST", "FLOOR", "FV", "GET_DATE_PART", "GREATEST",
    "IIF", "IN", "INDEXOF", "INITCAP", "INSTR", "ISNULL", "IS_DATE", "IS_NUMBER", "IS_SPACES", "LAG", "LAST",
    "LAST_DAY", "LEAD", "LEAST", "LENGTH", "LN", "LOG", "LOOKUP", "LOWER", "LPAD", "LTRIM", "MAKE_DATE_TIME", "MAX",
    "MD5", "MEDIAN", "METAPHONE", "MIN", "MOD", "MOVINGAVG", "MOVINGSUM", "NPER", "PERCENTILE", "PMT", "POWER", "PV",
    "RAND", "RATE", "REG_EXTRACT", "REG_MATCH", "REG_REPLACE", "REPLACECHR", "REPLACESTR", "REVERSE", "ROUND", "RPAD",
    "RTRIM", "SETCOUNTVARIABLE", "SET_DATE_PART", "SETMAXVARIABLE", "SETMINVARIABLE", "SETVARIABLE", "SHA256", "SIGN",
    "SIN", "SINH", "SOUNDEX", "SQRT", "STDDEV", "SUBSTR", "SUM", "SYSTIMESTAMP", "TAN", "TANH", "TIME_RANGE",
    "TO_BIGINT", "TO_CHAR", "TO_DATE", "TO_DECIMAL", "TO_FLOAT", "TO_INTEGER", "TRUNC", "UPPER", "VARIANCE"]

/-- is `text` an operator or punctuation symbol? -/
def isSymbol (text : String) : Bool := symbols.contains text

/-- is `text` a reserved word? -/
def isReservedWord (text : String) : Bool := reservedWords.contains text

/-- is `name` a function of the language? Case matters. -/
def isFunctionName (name : String) : Bool := functionNames.contains name

end Formula
