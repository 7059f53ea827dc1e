import FlowPipeline.Script.Rule

/-! # The grammar of scripts

Each phrase has its forms. Where a text has more than one reading, the orders of strengths decide
between some of them; the others are all followed as long as they go on.
-/

namespace FlowPipeline.Script
open Terminal Phrase Form
open Rule (seq oneOf optional)

/-- One expression or several, of which the last counts. -/
def expressions : Rule :=
  oneOf [expression, sequence]

/-- What ends a statement. -/
def statementEnd : Rule :=
  oneOf [lineEnd, semicolon]

/-- A name, or the word for what is not defined. -/
def plainName : Rule :=
  oneOf [undefinedWord, name]

/-- The words that may be names as well. -/
def reservedName : Rule :=
  oneOf [
    declareWord, namespaceWord, typeWord, publicWord, privateWord, protectedWord, overrideWord,
    readonlyWord, moduleWord, anyWord, numberWord, booleanWord, stringWord, symbolWord,
    exportWord, objectWord, newWord, readonlyWord, getWord, setWord, asyncWord, staticWord,
    exportWord, letWord]

/-- What a value may be assigned to. -/
def assignable : Rule :=
  oneOf [member, index, plainName, reservedName, destructuring, nonNull]

/-- The forms of a phrase. -/
def forms : Phrase → List Form
  | .script => plain <| seq [optional interpreter, optional statements]
  | .exportStatement =>
    plain <| oneOf [
      seq [
        exportWord,
        oneOf [
          seq [star, sourceClause], seq [exportOfModule, sourceClause],
          seq [exportedNames, sourceClause], exportedNames], statementEnd],
      seq [
        optional decorators, exportWord,
        oneOf [
          declaration, seq [defaultWord, oneOf [declaration, seq [expression, statementEnd]]]]],
      seq [exportWord, typeWord, exportedNames, optional sourceClause, statementEnd],
      seq [exportWord, importWord, importAlias],
      seq [exportWord, equals, expression, statementEnd],
      seq [exportWord, asWord, namespaceWord, name, statementEnd]]
  | .exportOfModule => plain <| seq [star, asWord, outerName]
  | .exportedNames =>
    plain <| seq [
      leftBrace, optional (seq [exportedName, optional moreExportedNames]), optional comma,
      rightBrace]
  | .exportedName =>
    plain <|
      seq [optional (oneOf [typeWord, typeofWord]), outerName, optional (seq [asWord, outerName])]
  | .outerName => plain <| oneOf [name, text, defaultWord]
  | .declaration =>
    plain (oneOf [
        functionDeclaration, generatorDeclaration, classDeclaration, lexicalDeclaration,
        variableDeclaration, functionSignature, abstractClass, moduleDeclaration]) ++
    ranked .declaration namespaceDeclaration ++
    plain (oneOf [
        typeAlias, enumDeclaration, interfaceDeclaration, importAlias, ambientDeclaration])
  | .importTerm => plain importWord
  | .importStatement =>
    plain <| seq [
      importWord, optional (oneOf [typeWord, typeofWord]),
      oneOf [seq [importedBindings, sourceClause], requiredModule, text],
      optional importAttributes, statementEnd]
  | .importedBindings =>
    plain <| oneOf [
      importOfModule, importedNames,
      seq [importedBinding, optional (seq [comma, oneOf [importOfModule, importedNames]])]]
  | .sourceClause => plain <| seq [fromWord, text]
  | .importOfModule => plain <| seq [star, asWord, name]
  | .importedNames =>
    plain <| seq [
      leftBrace, optional (seq [importedName, optional moreImportedNames]), optional comma,
      rightBrace]
  | .importedName =>
    plain <| seq [
      optional (oneOf [typeWord, typeofWord]),
      oneOf [importedBinding, seq [oneOf [outerName, typeWord], asWord, importedBinding]]]
  | .importAttributes => plain <| seq [withWord, object]
  | .statement =>
    plain <| oneOf [
      exportStatement, importStatement, debuggerStatement, expressionStatement, declaration,
      block, ifStatement, switchStatement, forStatement, forEachStatement, whileStatement,
      doStatement, tryStatement, withStatement, breakStatement, continueStatement,
      returnStatement, throwStatement, emptyStatement, labelledStatement]
  | .expressionStatement => plain <| seq [expressions, statementEnd]
  | .variableDeclaration =>
    plain <| seq [varWord, declarator, optional moreDeclarators, statementEnd]
  | .lexicalDeclaration =>
    plain <| seq [oneOf [letWord, constWord], declarator, optional moreDeclarators, statementEnd]
  | .declarator =>
    plain (seq [oneOf [name, destructuring], optional ascription, optional initialValue]) ++
    ranked .declaration (seq [name, bang, ascription])
  | .block => rightward <| seq [leftBrace, optional statements, rightBrace, optional lineEnd]
  | .elseBranch => plain <| seq [elseWord, statement]
  | .ifStatement => rightward <| seq [ifWord, parenthesized, statement, optional elseBranch]
  | .switchStatement => plain <| seq [switchWord, parenthesized, switchBody]
  | .forStatement =>
    plain <| seq [
      forWord, leftParen,
      oneOf [
        lexicalDeclaration, variableDeclaration, seq [expressions, semicolon], emptyStatement],
      oneOf [seq [expressions, semicolon], emptyStatement], optional expressions, rightParen,
      statement]
  | .forEachStatement => plain <| seq [forWord, optional awaitWord, forEachHeader, statement]
  | .forEachHeader =>
    plain <| seq [
      leftParen,
      oneOf [
        assignable, parenthesized,
        seq [varWord, oneOf [name, destructuring], optional initialValue],
        seq [oneOf [letWord, constWord], oneOf [name, destructuring], optional lineEnd]],
      oneOf [inWord, ofWord], expressions, rightParen]
  | .whileStatement => plain <| seq [whileWord, parenthesized, statement]
  | .doStatement =>
    rightward <| seq [doWord, statement, whileWord, parenthesized, optional statementEnd]
  | .tryStatement => plain <| seq [tryWord, block, optional catchClause, optional finallyClause]
  | .withStatement => plain <| seq [withWord, parenthesized, statement]
  | .breakStatement => plain <| seq [breakWord, optional name, statementEnd]
  | .continueStatement => plain <| seq [continueWord, optional name, statementEnd]
  | .debuggerStatement => plain <| seq [debuggerWord, statementEnd]
  | .returnStatement => plain <| seq [returnWord, optional expressions, statementEnd]
  | .throwStatement => plain <| seq [throwWord, expressions, statementEnd]
  | .emptyStatement => plain semicolon
  | .labelledStatement => weighted (-1) <| seq [oneOf [name, reservedName], colon, statement]
  | .switchBody => plain <| seq [leftBrace, optional cases, rightBrace]
  | .switchCase => plain <| seq [caseWord, expressions, colon, optional statements]
  | .defaultCase => plain <| seq [defaultWord, colon, optional statements]
  | .catchClause =>
    plain <| seq [
      catchWord,
      optional (seq [leftParen, oneOf [name, destructuring], optional ascription, rightParen]),
      block]
  | .finallyClause => plain <| seq [finallyWord, block]
  | .parenthesized =>
    plain <| seq [leftParen, oneOf [seq [expression, optional ascription], sequence], rightParen]
  | .expression =>
    plain <| oneOf [
      asExpression, satisfiesExpression, instantiation, namespaceDeclaration, typeAssertion,
      primary, assignment, updatingAssignment, awaitExpression, unary, binary, ternary, step,
      construction, yieldExpression]
  | .primary =>
    plain <| oneOf [
      index, member, parenthesized, plainName, reservedName, thisWord, superWord, number, text,
      template, regularExpression, trueWord, falseWord, nullWord, object, array,
      functionExpression, arrowFunction, generatorExpression, classExpression, metaProperty, call,
      nonNull]
  | .yieldExpression =>
    rightward <| seq [yieldWord, oneOf [seq [star, expression], optional expression]]
  | .object =>
    ranked .object <| seq [
      leftBrace,
      optional (seq [
          optional (oneOf [pair, spread, method, name, reservedName]), optional moreMembers]),
      rightBrace]
  | .objectPattern =>
    ranked .object <| seq [
      leftBrace,
      optional (seq [
          optional (oneOf [pairPattern, restPattern, fieldWithDefault, name, reservedName]),
          optional moreFields]), rightBrace]
  | .patternWithDefault => plain <| seq [pattern, equals, expression]
  | .fieldWithDefault =>
    plain <| seq [oneOf [reservedName, name, destructuring], equals, expression]
  | .array =>
    plain <| seq [
      leftBracket, optional (seq [optional (oneOf [expression, spread]), optional moreItems]),
      rightBracket]
  | .arrayPattern =>
    plain <| seq [
      leftBracket,
      optional (seq [optional (oneOf [pattern, patternWithDefault]), optional moreElements]),
      rightBracket]
  | .qualifiedName => ranked .member <| seq [oneOf [name, qualifiedName], dot, name]
  | .classExpression =>
    ranked .literal <| seq [
      optional decorators, classWord, optional name, optional typeParameters, optional heritage,
      classBody]
  | .classDeclaration =>
    left .declaration <| seq [
      optional decorators, classWord, name, optional typeParameters, optional heritage, classBody,
      optional lineEnd]
  | .heritage => plain <| oneOf [seq [extendsClause, optional implementsClause], implementsClause]
  | .functionExpression =>
    ranked .literal <| seq [optional asyncWord, functionWord, optional name, signature, block]
  | .functionDeclaration =>
    right .declaration <|
      seq [optional asyncWord, functionWord, name, signature, block, optional lineEnd]
  | .generatorExpression =>
    ranked .literal <|
      seq [optional asyncWord, functionWord, star, optional name, signature, block]
  | .generatorDeclaration =>
    right .declaration <|
      seq [optional asyncWord, functionWord, star, name, signature, block, optional lineEnd]
  | .arrowFunction =>
    plain <| seq [
      optional asyncWord, oneOf [reservedName, name, signature], arrow, oneOf [expression, block]]
  | .signature =>
    plain <| seq [
      optional typeParameters, parameters,
      optional (oneOf [ascription, assertedResult, predicateResult])]
  | .parameter => plain <| oneOf [requiredParameter, optionalParameter]
  | .optionalMark => plain questionDot
  | .call =>
    ranked .call (seq [
        oneOf [expression, importTerm], optional typeArguments, oneOf [arguments, template]]) ++
    ranked .templateCall (seq [oneOf [primary, construction], template]) ++
    ranked .member (seq [primary, questionDot, optional typeArguments, arguments])
  | .construction =>
    right .construction <| seq [newWord, primary, optional typeArguments, optional arguments]
  | .awaitExpression => ranked .unaryVoid <| seq [awaitWord, expression]
  | .member =>
    ranked .member <| seq [
      oneOf [expression, primary, importTerm], oneOf [dot, optionalMark],
      oneOf [privateName, name]]
  | .index =>
    right .member <| seq [
      oneOf [expression, primary], optional optionalMark, leftBracket, expressions, rightBracket]
  | .assignment =>
    right .assign <|
      seq [optional usingWord, oneOf [parenthesized, assignable], equals, expression]
  | .updatedOperand => plain <| oneOf [member, index, reservedName, name, parenthesized, nonNull]
  | .updatingAssignment =>
    right .assign <| seq [
      updatedOperand,
      oneOf [
        plusEquals, minusEquals, starEquals, slashEquals, percentEquals, caretEquals, andEquals,
        orEquals, shiftRightEquals, shiftAllRightEquals, shiftLeftEquals, powerEquals,
        andAndEquals, orOrEquals, questionsEquals], expression]
  | .initialValue => plain <| seq [equals, expression]
  | .destructuring => plain <| oneOf [objectPattern, arrayPattern]
  | .spread => plain <| seq [dots, expression]
  | .ternary => right .ternary <| seq [expression, ternaryMark, expression, colon, expression]
  | .binary =>
    left .and (seq [expression, andAnd, expression]) ++
    left .or (seq [expression, orOr, expression]) ++
    left .shift (seq [expression, shiftRight, expression]) ++
    left .shift (seq [expression, shiftAllRight, expression]) ++
    left .shift (seq [expression, shiftLeft, expression]) ++
    left .bitAnd (seq [expression, ampersand, expression]) ++
    left .bitXor (seq [expression, caret, expression]) ++
    left .bitOr (seq [expression, bar, expression]) ++
    left .plus (seq [expression, plus, expression]) ++
    left .plus (seq [expression, minus, expression]) ++
    left .times (seq [expression, star, expression]) ++
    left .times (seq [expression, slash, expression]) ++
    left .times (seq [expression, percent, expression]) ++
    right .power (seq [expression, power, expression]) ++
    left .relation (seq [expression, less, expression]) ++
    left .relation (seq [expression, lessEquals, expression]) ++
    left .equality (seq [expression, equalsEquals, expression]) ++
    left .equality (seq [expression, identical, expression]) ++
    left .equality (seq [expression, notEquals, expression]) ++
    left .equality (seq [expression, notIdentical, expression]) ++
    left .relation (seq [expression, greaterEquals, expression]) ++
    left .relation (seq [expression, greater, expression]) ++
    left .ternary (seq [expression, questions, expression]) ++
    left .relation (seq [expression, instanceofWord, expression]) ++
    left .relation (seq [oneOf [expression, privateName], inWord, expression])
  | .unary =>
    left .unaryVoid <|
      seq [oneOf [bang, tilde, minus, plus, typeofWord, voidWord, deleteWord], expression]
  | .step =>
    leftward <| oneOf [
      seq [expression, oneOf [plusPlus, minusMinus]],
      seq [oneOf [plusPlus, minusMinus], expression]]
  | .sequence => rightward <| seq [expression, optional moreExpressions]
  | .text =>
    plain <| oneOf [
      seq [doubleQuote, optional doubleTextParts, doubleQuote],
      seq [singleQuote, optional singleTextParts, singleQuote]]
  | .template => plain <| seq [backQuote, optional templateParts, backQuote]
  | .templateHole => plain <| seq [holeStart, expressions, rightBrace]
  | .regularExpression => plain <| seq [slash, regexBody, regexEnd, optional regexFlags]
  | .metaProperty =>
    plain <| oneOf [seq [newWord, dot, targetWord], seq [importWord, dot, metaWord]]
  | .arguments =>
    plain <| seq [
      leftParen, optional (seq [optional (oneOf [expression, spread]), optional moreItems]),
      rightParen]
  | .decorator =>
    plain <| seq [atSign, oneOf [name, decoratorMember, decoratorCall, decoratorParentheses]]
  | .decoratorMember => ranked .member <| seq [oneOf [name, decoratorMember], dot, name]
  | .decoratorCall =>
    ranked .call <| seq [oneOf [name, decoratorMember], optional typeArguments, arguments]
  | .classBody => plain <| seq [leftBrace, optional classMembers, rightBrace]
  | .parameters =>
    plain <| seq [
      leftParen, optional (seq [parameter, optional moreParameters, optional comma]), rightParen]
  | .staticBlock => plain <| seq [staticWord, block]
  | .pattern => weighted (-1) <| oneOf [assignable, restPattern]
  | .restPattern => rightward <| seq [dots, assignable]
  | .method =>
    leftward <| seq [
      optional accessModifier, optional staticWord, optional overrideModifier,
      optional readonlyWord, optional asyncWord, optional (oneOf [getWord, setWord, star]),
      propertyName, optional question, signature, block]
  | .pair => plain <| seq [propertyName, colon, expression]
  | .pairPattern => plain <| seq [propertyName, colon, oneOf [pattern, patternWithDefault]]
  | .propertyName => plain <| oneOf [name, reservedName, privateName, text, number, computedName]
  | .computedName => plain <| seq [leftBracket, expression, rightBracket]
  | .field =>
    plain <| seq [
      optional decorators,
      optional (oneOf [
          seq [declareWord, optional accessModifier],
          seq [accessModifier, optional declareWord]]),
      oneOf [
        seq [optional staticWord, optional overrideModifier, optional readonlyWord],
        seq [optional abstractWord, optional readonlyWord],
        seq [optional readonlyWord, optional abstractWord], optional accessorWord], propertyName,
      optional (oneOf [question, bang]), optional ascription, optional initialValue]
  | .importedBinding => plain <| oneOf [name, typeWord]
  | .nonNull => left .unary <| seq [expression, bang]
  | .methodSignature =>
    plain <| seq [
      optional accessModifier, optional staticWord, optional overrideModifier,
      optional readonlyWord, optional asyncWord, optional (oneOf [getWord, setWord, star]),
      propertyName, optional question, signature]
  | .abstractMethod =>
    plain <| seq [
      optional accessModifier, abstractWord, optional overrideModifier,
      optional (oneOf [getWord, setWord, star]), propertyName, optional question, signature]
  | .functionSignature =>
    plain <|
      seq [optional asyncWord, functionWord, name, signature, oneOf [statementEnd, signatureEnd]]
  | .decoratorParentheses =>
    plain <| seq [leftParen, oneOf [name, decoratorMember, decoratorCall], rightParen]
  | .typeAssertion => left .unary <| seq [typeArguments, expression]
  | .asExpression => left .binary <| seq [expression, asWord, oneOf [constWord, type]]
  | .satisfiesExpression => left .binary <| seq [expression, satisfiesWord, type]
  | .instantiation => ranked .instantiation <| seq [expression, typeArguments]
  | .requiredModule => plain <| seq [name, equals, requireWord, leftParen, text, rightParen]
  | .extendsClause => plain <| seq [extendsWord, base, optional moreBases]
  | .base => ranked .extension <| seq [expression, optional typeArguments]
  | .implementsClause => plain <| seq [implementsWord, type, optional moreTypes]
  | .ambientDeclaration =>
    plain <| seq [
      declareWord,
      oneOf [
        declaration, seq [globalWord, block],
        seq [moduleWord, dot, name, colon, type, statementEnd]]]
  | .abstractClass =>
    ranked .declaration <| seq [
      optional decorators, abstractWord, classWord, name, optional typeParameters,
      optional heritage, classBody]
  | .moduleDeclaration => plain <| seq [moduleWord, moduleContents]
  | .namespaceDeclaration => plain <| seq [namespaceWord, moduleContents]
  | .moduleContents => rightward <| seq [oneOf [text, name, qualifiedName], optional block]
  | .importAlias =>
    plain <| seq [importWord, name, equals, oneOf [name, qualifiedName], statementEnd]
  | .qualifiedType => ranked .member <| seq [oneOf [name, qualifiedName], dot, name]
  | .interfaceDeclaration =>
    plain <|
      seq [interfaceWord, name, optional typeParameters, optional extendedTypes, objectType]
  | .extendedTypes =>
    plain <|
      seq [extendsWord, oneOf [name, qualifiedType, genericType], optional moreExtendedTypes]
  | .enumDeclaration => plain <| seq [optional constWord, enumWord, name, enumBody]
  | .enumBody =>
    plain <| seq [
      leftBrace,
      optional (seq [oneOf [propertyName, enumValue], optional moreEnumMembers, optional comma]),
      rightBrace]
  | .enumValue => plain <| seq [propertyName, initialValue]
  | .typeAlias =>
    plain <| seq [typeWord, name, optional typeParameters, equals, type, statementEnd]
  | .accessModifier => plain <| oneOf [publicWord, privateWord, protectedWord]
  | .overrideModifier => plain overrideWord
  | .requiredParameter => plain <| seq [parameterName, optional ascription, optional initialValue]
  | .optionalParameter =>
    plain <| seq [parameterName, question, optional ascription, optional initialValue]
  | .parameterName =>
    plain <| seq [
      optional decorators, optional accessModifier, optional overrideModifier,
      optional readonlyWord, oneOf [pattern, thisWord]]
  | .ascriptionWithoutOption => plain <| seq [minusQuestionColon, type]
  | .ascriptionWithOption => plain <| seq [plusQuestionColon, type]
  | .optionalAscription => plain <| seq [questionColon, type]
  | .ascription => plain <| seq [colon, type]
  | .importMember =>
    plain <| seq [oneOf [importTerm, importMember, importCall], dot, oneOf [privateName, name]]
  | .importCall => plain <| seq [oneOf [importTerm, importMember], arguments]
  | .asserted => plain <| seq [assertsWord, oneOf [predicate, name, thisWord]]
  | .assertedResult => plain <| seq [colon, asserted]
  | .type =>
    plain (oneOf [primaryType, functionType, readonlyType, constructorType, inferredType]) ++
    numbered (-1) importMember ++
    numbered (-1) importCall
  | .namedElement => plain <| seq [oneOf [name, restPattern], ascription]
  | .optionalElement => plain <| seq [name, question, ascription]
  | .optionalType => plain <| seq [type, question]
  | .restType => plain <| seq [dots, type]
  | .tupleElement => plain <| oneOf [namedElement, optionalElement, optionalType, restType, type]
  | .constructorType =>
    leftward <|
      seq [optional abstractWord, newWord, optional typeParameters, parameters, arrow, type]
  | .primaryType =>
    plain <| oneOf [
      parenthesizedType, predefinedType, name, qualifiedType, genericType, objectType, arrayType,
      tupleType, maybeType, typeQuery, keyQuery, thisWord, anyType, literalType, lookupType,
      conditionalType, templateType, intersectionType, unionType, constWord]
  | .typeHole => plain <| seq [holeStart, oneOf [primaryType, inferredType], rightBrace]
  | .templateType => plain <| seq [backQuote, optional templateTypeParts, backQuote]
  | .inferredType => rightward <| seq [inferWord, name, optional (seq [extendsWord, type])]
  | .conditionalType => rightward <| seq [type, extendsWord, type, question, type, colon, type]
  | .genericType => ranked .call <| seq [oneOf [name, qualifiedType], typeArguments]
  | .predicate => plain <| seq [oneOf [name, thisWord, predefinedType], isWord, type]
  | .predicateResult => plain <| seq [colon, predicate]
  | .queryMember =>
    plain <| seq [
      oneOf [name, thisWord, queryIndex, queryMember, queryCall], oneOf [dot, questionDot],
      oneOf [privateName, name]]
  | .queryIndex =>
    plain <| seq [
      oneOf [name, thisWord, queryIndex, queryMember, queryCall], optional questionDot,
      leftBracket, oneOf [predefinedType, text, number], rightBracket]
  | .queryCall => plain <| seq [oneOf [importTerm, name, queryMember, queryIndex], arguments]
  | .queryInstantiation =>
    plain <| seq [oneOf [importTerm, name, queryMember, queryIndex], typeArguments]
  | .typeQuery =>
    rightward <| seq [
      typeofWord, oneOf [queryIndex, queryMember, queryCall, queryInstantiation, name, thisWord]]
  | .keyQuery => plain <| seq [keyofWord, primaryType]
  | .lookupType => plain <| seq [primaryType, leftBracket, type, rightBracket]
  | .mappedKey => plain <| seq [name, inWord, type, optional (seq [asWord, type])]
  | .literalType =>
    plain <| oneOf [signedNumber, number, text, trueWord, falseWord, nullWord, undefinedWord]
  | .signedNumber => leftNumbered 1 <| seq [oneOf [minus, plus], number]
  | .anyType => plain star
  | .maybeType => rightward <| seq [question, primaryType]
  | .parenthesizedType => plain <| seq [leftParen, type, rightParen]
  | .predefinedType =>
    plain <| oneOf [
      anyWord, numberWord, booleanWord, stringWord, symbolWord, seq [uniqueWord, symbolWord],
      voidWord, unknownWord, neverWord, objectWord]
  | .typeArguments => plain <| seq [less, type, optional moreTypes, optional comma, greater]
  | .objectType =>
    plain <| seq [
      oneOf [leftBrace, leftBraceBar],
      optional (seq [
          optional (oneOf [comma, semicolon]),
          oneOf [
            exportStatement, propertySignature, callSignature, constructSignature,
            indexSignature, methodSignature], optional moreTypeMembers,
          optional (oneOf [comma, statementEnd])]), oneOf [rightBrace, rightBraceBar]]
  | .callSignature => plain signature
  | .propertySignature =>
    plain <| seq [
      optional accessModifier, optional staticWord, optional overrideModifier,
      optional readonlyWord, propertyName, optional question, optional ascription]
  | .typeParameters =>
    plain <| seq [less, typeParameter, optional moreTypeParameters, optional comma, greater]
  | .typeParameter =>
    plain <| seq [optional constWord, name, optional constraint, optional defaultType]
  | .defaultType => plain <| seq [equals, type]
  | .constraint => plain <| seq [oneOf [extendsWord, colon], type]
  | .constructSignature =>
    plain <|
      seq [
        optional abstractWord, newWord, optional typeParameters, parameters, optional ascription]
  | .indexSignature =>
    plain <| seq [
      optional (seq [optional (oneOf [minus, plus]), readonlyWord]), leftBracket,
      oneOf [seq [oneOf [name, reservedName], colon, type], mappedKey], rightBracket,
      oneOf [ascription, ascriptionWithoutOption, ascriptionWithOption, optionalAscription]]
  | .arrayType => plain <| seq [primaryType, leftBracket, rightBracket]
  | .tupleType =>
    plain <| seq [
      leftBracket, optional (seq [tupleElement, optional moreTupleElements]), optional comma,
      rightBracket]
  | .readonlyType => plain <| seq [readonlyWord, type]
  | .unionType => leftward <| seq [optional type, bar, type]
  | .intersectionType => leftward <| seq [optional type, ampersand, type]
  | .functionType =>
    leftward <|
      seq [optional typeParameters, parameters, arrow, oneOf [type, asserted, predicate]]
  | .statements => repeated .statements statement
  | .decorators => repeated .decorators decorator
  | .moreExportedNames => repeated .moreExportedNames <| seq [comma, exportedName]
  | .moreImportedNames => repeated .moreImportedNames <| seq [comma, importedName]
  | .moreDeclarators => repeated .moreDeclarators <| seq [comma, declarator]
  | .cases => repeated .cases <| oneOf [switchCase, defaultCase]
  | .moreMembers =>
    repeated .moreMembers <|
      seq [comma, optional (oneOf [pair, spread, method, name, reservedName])]
  | .moreFields =>
    repeated .moreFields <| seq [
      comma, optional (oneOf [pairPattern, restPattern, fieldWithDefault, name, reservedName])]
  | .moreItems => repeated .moreItems <| seq [comma, optional (oneOf [expression, spread])]
  | .moreElements =>
    repeated .moreElements <| seq [comma, optional (oneOf [pattern, patternWithDefault])]
  | .moreExpressions => repeated .moreExpressions <| seq [comma, expression]
  | .doubleTextParts => repeated .doubleTextParts <| oneOf [doubleText, escape]
  | .singleTextParts => repeated .singleTextParts <| oneOf [singleText, escape]
  | .templateParts => repeated .templateParts <| oneOf [templateText, escape, templateHole]
  | .classMembers =>
    repeated .classMembers <| oneOf [
      seq [optional decorators, method, optional statementEnd],
      seq [methodSignature, oneOf [signatureEnd, comma]], staticBlock,
      seq [
        oneOf [abstractMethod, indexSignature, methodSignature, field],
        oneOf [statementEnd, comma]], semicolon]
  | .moreParameters => repeated .moreParameters <| seq [comma, parameter]
  | .moreBases => repeated .moreBases <| seq [comma, base]
  | .moreTypes => repeated .moreTypes <| seq [comma, type]
  | .moreExtendedTypes =>
    repeated .moreExtendedTypes <| seq [comma, oneOf [name, qualifiedType, genericType]]
  | .moreEnumMembers => repeated .moreEnumMembers <| seq [comma, oneOf [propertyName, enumValue]]
  | .templateTypeParts => repeated .templateTypeParts <| oneOf [templateText, typeHole]
  | .moreTypeMembers =>
    repeated .moreTypeMembers <| seq [
      oneOf [comma, statementEnd],
      oneOf [
        exportStatement, propertySignature, callSignature, constructSignature, indexSignature,
        methodSignature]]
  | .moreTypeParameters => repeated .moreTypeParameters <| seq [comma, typeParameter]
  | .moreTupleElements => repeated .moreTupleElements <| seq [comma, tupleElement]

/-- What has a place in the orders of strengths: a rank, or a phrase as a whole. -/
inductive Standing where
  | rank (r : Rank)
  | phrase (p : Phrase)
deriving DecidableEq, Repr

/-- The orders of strengths, the strongest first. What is not in one order is not compared. -/
def orders : List (List Standing) := [
  [.rank .member, .rank .templateCall, .rank .call, .phrase .step, .rank .unaryVoid, .rank .power,
    .rank .times, .rank .plus, .rank .shift, .rank .compare, .rank .relation, .rank .equality,
    .rank .bitAnd, .rank .bitXor, .rank .bitOr, .rank .and, .rank .or, .rank .ternary,
    .phrase .sequence, .phrase .arrowFunction],
  [.rank .assign, .phrase .primary],
  [.rank .member, .rank .templateCall, .rank .construction, .rank .call, .phrase .expression],
  [.rank .declaration, .rank .literal],
  [.phrase .primary, .phrase .block, .rank .object],
  [.phrase .metaProperty, .phrase .importTerm],
  [.phrase .importStatement, .phrase .importTerm],
  [.phrase .exportStatement, .phrase .primary],
  [.phrase .lexicalDeclaration, .phrase .primary],
  [.rank .call, .rank .instantiation, .rank .unary, .rank .binary, .phrase .awaitExpression,
    .phrase .arrowFunction],
  [.rank .extension, .rank .instantiation],
  [.phrase .intersectionType, .phrase .unionType, .phrase .conditionalType, .phrase .functionType,
    .rank .binary, .phrase .predicate, .phrase .readonlyType],
  [.phrase .mappedKey, .phrase .primary],
  [.phrase .accessModifier, .phrase .primary],
  [.rank .unaryVoid, .phrase .expression],
  [.phrase .extendsClause, .phrase .primary],
  [.rank .unary, .rank .assign],
  [.rank .declaration, .phrase .expression],
  [.phrase .predefinedType, .phrase .unary],
  [.phrase .type, .phrase .maybeType],
  [.phrase .tupleType, .phrase .arrayType, .phrase .pattern, .phrase .type],
  [.phrase .readonlyType, .phrase .pattern],
  [.phrase .readonlyType, .phrase .primary],
  [.phrase .typeQuery, .phrase .index, .phrase .expression],
  [.phrase .typeQuery, .phrase .queryIndex],
  [.phrase .qualifiedType, .phrase .genericType, .phrase .primaryType, .phrase .lookupType,
    .phrase .keyQuery, .phrase .type],
  [.phrase .asExpression, .phrase .satisfiesExpression, .phrase .primaryType],
  [.phrase .queryMember, .phrase .member],
  [.phrase .member, .phrase .importMember],
  [.phrase .queryMember, .phrase .primary],
  [.phrase .queryIndex, .phrase .index],
  [.phrase .queryIndex, .phrase .primary],
  [.phrase .queryCall, .phrase .primary],
  [.phrase .queryInstantiation, .phrase .primary],
  [.phrase .typeQuery, .phrase .primary],
  [.phrase .overrideModifier, .phrase .primary],
  [.phrase .decoratorCall, .phrase .decorator],
  [.phrase .literalType, .phrase .pattern],
  [.phrase .predefinedType, .phrase .pattern],
  [.phrase .call, .phrase .queryCall],
  [.phrase .call, .phrase .importCall],
  [.phrase .construction, .phrase .primary],
  [.phrase .metaProperty, .phrase .primary],
  [.phrase .constructSignature, .phrase .propertyName]]

end FlowPipeline.Script
