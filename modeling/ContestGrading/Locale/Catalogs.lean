import ContestGrading.Locale.Loading
import ContestGrading.Json.Printer
/-!
# The catalogs that come with the program

One catalog is shipped besides the default locale, for simplified Chinese.
It is a document like any other, in the directory of catalogs.

Results:
* `shippedFiles_other`: no other file is shipped.
-/
namespace ContestGrading.Locale

/-- The messages in simplified Chinese. -/
def simplifiedChinese : List (String × String) := [
    ("N/A",
      "无"),
    ("Correct",
      "正确"),
    ("Partially correct",
      "部分正确"),
    ("Not correct",
      "错误"),
    ("Output is correct",
      "输出正确"),
    ("Output isn't correct",
      "输出错误"),
    ("Output is partially correct",
      "输出部分正确"),
    ("Compilation succeeded",
      "编译成功"),
    ("Compilation failed",
      "编译失败"),
    ("Subtask %d",
      "子任务 %d"),
    ("%.3f s",
      "%.3f 秒"),
    ("%s B",
      "%s 字节"),
    ("Output file was not produced. Check you are creating the output file with name " ++
      "given in the problem statement. You may wish to use or consult the templates for " ++
      "this problem.",
      "未生成输出文件。请检查是否按题目描述中给出的文件名创建了输出文件。可以参考本题提供的模板。"),
    ("Time limit exceeded before your program finished. This may be due to an infinite " ++
      "loop/recursion, or your algorithm may be too slow for this subtask",
      "程序在结束前超出了时间限制。可能是出现了死循环或无限递归，也可能是算法对本子任务来说太慢"),
    ("Program crashed. Possibly due to accessing or requesting invalid memory (e.g. " ++
      "out-of-bounds array access)",
      "程序崩溃。可能是访问或申请了非法内存（例如数组越界）"),
    ("Your program did not finish successfully (return code nonzero). Possibly due to an " ++
      "Exception or Error being thrown.",
      "程序未能正常结束（返回值非零）。可能是抛出了异常或错误。")
  ]

/-- A catalog as the document that holds it. -/
def catalogBytes (entries : List (String × String)) : List UInt8 :=
  Text.encode (Json.print 4 (.object (entries.map fun e => (Text.ofString e.1, .string e.2))))

/-- The directory of the shipped catalogs. -/
def shippedDirectory : Text := "locales"

def shippedCatalog : Text := catalogPath shippedDirectory "zh_CN"

/-- The shipped catalogs by their paths. -/
def shippedFiles : Files := fun path =>
  if path = shippedCatalog then .content (catalogBytes simplifiedChinese) else .missing

theorem shippedFiles_other {path : Text} (h : path ≠ shippedCatalog) :
    shippedFiles path = .missing := if_neg h

end ContestGrading.Locale
